import UrlPolicy.CommandLine.Report
import UrlPolicy.Decimal.Fixed

set_option autoImplicit false

namespace UrlPolicy.CommandLine

structure Benchmark where
  policy : Policy
  urls : List Text
  rounds : Nat
  warmupRounds : Nat
  batch : Nat
  traced : Bool

/-- Nanoseconds for all decisions and for each full batch of them, and how many of the decisions
blocked. -/
structure Measurement where
  total : Nat
  batches : List Nat
  blocked : Nat
  deriving DecidableEq, Repr

def defaultUrls : List Text := [
  "https://www.reddit.com/r/askscience/comments/abc/why_is_the_sky_blue/".toList,
  "https://www.reddit.com/r/funny/".toList,
  "https://mail.google.com/mail/u/0/#inbox".toList,
  "https://docs.google.com/document/d/1x/edit".toList,
  "https://www.youtube.com/shorts/xyz".toList,
  "https://www.youtube.com/watch?v=dQw4w9WgXcQ".toList,
  "https://en.wikipedia.org/wiki/Rust_(programming_language)".toList,
  "https://news.ycombinator.com/item?id=1".toList,
  "chrome://settings/".toList,
  "http://example.com:8080/a/b/c?d=e".toList]

namespace Benchmark

/-- At least one round, and batches of at least one decision. -/
def of (policy : Policy) (urls : List Text) (iterations warmupOps sampleBatchOps : Nat)
    (traced : Bool) : Benchmark where
  policy := policy
  urls := urls
  rounds := max iterations 1
  warmupRounds := if urls = [] then 0 else warmupOps / urls.length + 1
  batch := max sampleBatchOps 1
  traced := traced

def isBlocked (b : Benchmark) (url : Text) : Bool :=
  (b.policy.decide url (fun _ => false) b.traced).verdict.blocked

def ops (b : Benchmark) : Nat := b.urls.length * b.rounds

/-- How many decisions block: every round blocks the same addresses. -/
def blockedOps (b : Benchmark) : Nat := (b.urls.filter b.isBlocked).length * b.rounds

end Benchmark

/-- The sample at the given rank, the nearest from above. -/
def percentile (sorted : List Float) (p : Float) : Float :=
  let rank := (sorted.length.toFloat * p).ceil.toUInt64.toNat
  (sorted[min (rank - 1) (sorted.length - 1)]?).getD 0

def percentage (part whole : Nat) : Float :=
  if whole = 0 then 0 else part.toFloat / whole.toFloat * 100

def benchmarkLines (b : Benchmark) (measured : Measurement) : List Text :=
  let ms := measured.total.toFloat / 1000000
  let sample := fun ns : Nat => ns.toFloat / 1000 / b.batch.toFloat
  let samples := (measured.batches.map sample).mergeSort (· ≤ ·)
  let rate := if ms > 0 then (b.ops.toFloat / (ms / 1000)).toUInt64.toNat else 0
  let micros := fun x : Float => Decimal.fixed 2 x ++ " us".toList
  [(if b.traced then "decide (traced):" else "decide:").toList,
    "  Ops: ".toList ++ number b.ops,
    "  Total: ".toList ++ Decimal.fixed 2 ms ++ " ms".toList,
    "  Avg: ".toList ++ micros (if b.ops = 0 then 0 else ms * 1000 / b.ops.toFloat),
    "  P50: ".toList ++ micros (percentile samples 0.5),
    "  P95: ".toList ++ micros (percentile samples 0.95),
    "  P99: ".toList ++ micros (percentile samples 0.99),
    "  Throughput: ".toList ++ number rate ++ " ops/sec".toList,
    "  Blocked: ".toList ++ Decimal.fixed 1 (percentage measured.blocked b.ops) ++ ['%']]

def banner : List Text :=
  let rule := List.replicate 72 '='
  [rule, "NavGate decide() Benchmark".toList, rule]

def loadedLine (loaded : Loaded) (time : Text) : Text :=
  let stats := loaded.compiled.stats
  "Policy: ".toList ++ number loaded.allowRules ++ " allow, ".toList ++
    number loaded.denyRules ++ " deny rules (".toList ++ number stats.invalid ++
    " invalid, ".toList ++ number stats.deduped ++ " deduped), mode ".toList ++
    loaded.compiled.policy.mode.name ++ ", compiled in ".toList ++ time

def datasetLines (urls : List Text) (iterations : Nat) : List Text :=
  ["Dataset size: ".toList ++ number urls.length ++ " URLs".toList,
    "Iterations: ".toList ++ number iterations, [],
    "Warming up...".toList, "Warmup done.".toList, []]

def closingLines : List Text :=
  [[], "Notes:".toList,
    "- p50/p95/p99 computed from per-batch wall-time samples divided by batch size.".toList]

end UrlPolicy.CommandLine
