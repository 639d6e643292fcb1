import UrlPolicy.Policy.Edition
import UrlPolicy.Settings

set_option autoImplicit false

namespace UrlPolicy

structure Question where
  url : Text
  exempt : List Text
  traced : Bool
  deriving DecidableEq, Repr

structure Reply where
  decision : Decision
  asked : List Text
  deriving DecidableEq, Repr

/-- Answers a question. The hosts that are asked about are recorded in order. -/
def Policy.reply (p : Policy) (q : Question) : Reply :=
  let isExempt := fun host : Text => do
    modify fun asked : List Text => asked ++ [host]
    return q.exempt.contains host
  let asking : StateM (List Text) Decision := p.decideM q.url isExempt q.traced
  let (decision, asked) := asking.run []
  ⟨decision, asked⟩

structure Session where
  publisher : Publisher
  held : List Edition
  deriving DecidableEq, Repr

namespace Session

def start (e : Edition) : Session := ⟨.start e, []⟩

inductive Command where
  | load (document : Text)
  | publish (e : Edition)
  | ask (q : Question)
  | hold
  | askHeld (index : Nat) (q : Question)
  | republish (index : Nat)
  | generation
  | describe
  deriving DecidableEq, Repr

inductive Answer where
  | loaded (generation : Nat) (compiled : Settings.Compiled)
  | refused (e : Settings.Error)
  | published (generation : Nat)
  | decided (r : Reply)
  | kept (index generation : Nat)
  | republished (generation heldGeneration : Nat)
  | generation (generation : Nat)
  | described (e : Edition)
  | nothingHeld
  deriving DecidableEq, Repr

def publish (s : Session) (e : Edition) : Session := { s with publisher := s.publisher.publish e }

def generation (s : Session) : Nat := s.publisher.current.generation

def step (s : Session) : Command → Answer × Session
  | .load document =>
    match Settings.compileText document with
    | .error e => (.refused e, s)
    | .ok compiled =>
      let s := s.publish compiled.policy
      (.loaded s.generation compiled, s)
  | .publish e =>
    let s := s.publish e
    (.published s.generation, s)
  | .ask q => (.decided (s.publisher.current.policy.reply q), s)
  | .hold =>
    (.kept s.held.length s.generation, { s with held := s.held ++ [s.publisher.current] })
  | .askHeld index q =>
    match s.held[index]? with
    | none => (.nothingHeld, s)
    | some e => (.decided (e.policy.reply q), s)
  | .republish index =>
    match s.held[index]? with
    | none => (.nothingHeld, s)
    | some e =>
      let s := s.publish e
      (.republished s.generation e.generation, s)
  | .generation => (.generation s.generation, s)
  | .describe => (.described s.publisher.current, s)

def run (s : Session) : List Command → List Answer × Session
  | [] => ([], s)
  | c :: cs =>
    let (answer, s) := s.step c
    let (answers, s) := s.run cs
    (answer :: answers, s)

end Session

end UrlPolicy
