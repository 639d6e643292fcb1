import UrlPolicy.Json.Reader
import UrlPolicy.Proofs.Text.Cut

/-!
The texts of JSON values, without reference to what reads them. Values may be nested to any depth,
numbers may be of any size, and the strings in them may hold halves of surrogate pairs.
-/

set_option autoImplicit false

namespace UrlPolicy

namespace Json

def IsBlanks (t : Text) : Prop := ∀ c ∈ t, isJsonBlank c = true

instance (t : Text) : Decidable (IsBlanks t) := List.decidableBAll _ t

theorem isBlanks_nil : IsBlanks [] := by simp [IsBlanks]

theorem IsBlanks.append {t u : Text} (ht : IsBlanks t) (hu : IsBlanks u) : IsBlanks (t ++ u) :=
  fun c hc => (List.mem_append.1 hc).elim (ht c) (hu c)

theorem isBlanks_takeWhile (t : Text) : IsBlanks (t.takeWhile isJsonBlank) :=
  fun _ hc => List.mem_takeWhile_imp hc

theorem skipBlanks_append {blanks : Text} (h : IsBlanks blanks) (t : Text) :
    skipBlanks (blanks ++ t) = skipBlanks t :=
  List.dropWhile_append_of_pos h

theorem exists_skipBlanks (t : Text) : ∃ blanks, IsBlanks blanks ∧ t = blanks ++ skipBlanks t :=
  ⟨_, isBlanks_takeWhile t, (List.takeWhile_append_dropWhile).symm⟩

/-! Numbers. -/

def IsDigits (t : Text) : Prop := t ≠ [] ∧ ∀ c ∈ t, c.isDigit = true

/-- The digits before the point. Only zero itself starts with a zero. -/
def IsWhole (t : Text) : Prop := IsDigits t ∧ (t.head? = some '0' → t = ['0'])

theorem isWhole_zero : IsWhole ['0'] :=
  ⟨⟨by simp, List.forall_mem_singleton.2 rfl⟩, fun _ => rfl⟩

def IsFraction (t : Text) : Prop := t = [] ∨ ∃ digits, IsDigits digits ∧ t = '.' :: digits

def IsExponent (t : Text) : Prop :=
  t = [] ∨ ∃ mark ∈ ['e', 'E'], ∃ sign ∈ [[], ['+'], ['-']], ∃ digits,
    IsDigits digits ∧ t = mark :: (sign ++ digits)

inductive IsUnsigned : Text → Prop where
  | mk {whole fraction exponent : Text} (hwhole : IsWhole whole) (hfraction : IsFraction fraction)
      (hexponent : IsExponent exponent) : IsUnsigned (whole ++ (fraction ++ exponent))

/-! Strings. -/

/-- A character that is written as it is. -/
def IsPlain (c : Char) : Prop := c ≠ '"' ∧ c ≠ '\\' ∧ ¬ c.toNat < 32

inductive IsHexFour : Text → Nat → Prop where
  | mk {a b c d : Char} {i j k l : Nat} (ha : hexValue? a = some i) (hb : hexValue? b = some j)
      (hc : hexValue? c = some k) (hd : hexValue? d = some l) :
      IsHexFour [a, b, c, d] (((i * 16 + j) * 16 + k) * 16 + l)

/-- What may stand between the quotes of a string. -/
inductive IsBody : Text → Prop where
  | nil : IsBody []
  | plain {c : Char} {t : Text} (hc : IsPlain c) (ht : IsBody t) : IsBody (c :: t)
  | simple {c d : Char} {t : Text} (hc : simpleEscape? c = some d) (ht : IsBody t) :
      IsBody ('\\' :: c :: t)
  | unicode {four t : Text} {n : Nat} (hfour : IsHexFour four n) (ht : IsBody t) :
      IsBody ('\\' :: 'u' :: (four ++ t))

/-- What stands between the quotes of a string, and the characters it spells. The halves of a
surrogate pair spell a character only together. -/
inductive Spells : Text → Text → Prop where
  | nil : Spells [] []
  | plain {c : Char} {t s : Text} (hc : IsPlain c) (ht : Spells t s) : Spells (c :: t) (c :: s)
  | simple {c d : Char} {t s : Text} (hc : simpleEscape? c = some d) (ht : Spells t s) :
      Spells ('\\' :: c :: t) (d :: s)
  | unicode {four t s : Text} {n : Nat} (hfour : IsHexFour four n) (hleading : isLeading n = false)
      (htrailing : isTrailing n = false) (ht : Spells t s) :
      Spells ('\\' :: 'u' :: (four ++ t)) (Char.ofNat n :: s)
  | pair {four four' t s : Text} {n m : Nat} (hfour : IsHexFour four n)
      (hleading : isLeading n = true) (hfour' : IsHexFour four' m) (htrailing : isTrailing m = true)
      (ht : Spells t s) : Spells ('\\' :: 'u' :: (four ++ '\\' :: 'u' :: (four' ++ t)))
        (Char.ofNat (0x10000 + (n - 0xD800) * 0x400 + (m - 0xDC00)) :: s)

theorem Spells.isBody {t s : Text} (h : Spells t s) : IsBody t := by
  induction h with
  | nil => exact .nil
  | plain hc _ ih => exact .plain hc ih
  | simple hc _ ih => exact .simple hc ih
  | unicode hfour _ _ _ ih => exact .unicode hfour ih
  | pair hfour _ hfour' _ _ ih => exact .unicode hfour (.unicode hfour' ih)

/-! Values. -/

inductive IsScalar : Text → Prop where
  | null : IsScalar "null".toList
  | true : IsScalar "true".toList
  | false : IsScalar "false".toList
  | number {t : Text} (h : IsUnsigned t) : IsScalar t
  | negative {t : Text} (h : IsUnsigned t) : IsScalar ('-' :: t)
  | string {body : Text} (h : IsBody body) : IsScalar ('"' :: (body ++ ['"']))

structure Item where
  before : Text
  value : Text
  after : Text

namespace Item

def text (i : Item) : Text := i.before ++ (i.value ++ i.after)

structure Spaced (i : Item) : Prop where
  before : IsBlanks i.before
  after : IsBlanks i.after

end Item

/-- A key between its quotes and the item that follows its colon. -/
structure Member where
  before : Text
  key : Text
  between : Text
  item : Item

namespace Member

def text (m : Member) : Text :=
  m.before ++ '"' :: (m.key ++ '"' :: (m.between ++ ':' :: m.item.text))

structure Spaced (m : Member) : Prop where
  before : IsBlanks m.before
  key : IsBody m.key
  between : IsBlanks m.between
  item : m.item.Spaced

end Member

/-- Texts between commas, after blanks and before the mark that ends them. -/
def enclosed (blanks : Text) (texts : List Text) (close : Char) : Text :=
  blanks ++ ([','].intercalate texts ++ [close])

/-- What is left of enclosed texts when the first of them has been read. -/
def following (texts : List Text) (close : Char) : Text := texts.flatMap (',' :: ·) ++ [close]

@[simp] theorem enclosed_nil (blanks : Text) (close : Char) :
    enclosed blanks [] close = blanks ++ [close] := rfl

theorem enclosed_cons (blanks w : Text) (ws : List Text) (close : Char) :
    enclosed blanks (w :: ws) close = blanks ++ (w ++ following ws close) := by
  rw [enclosed, Text.intercalate_cons_flatMap, List.append_assoc, following]

@[simp] theorem following_nil (close : Char) : following [] close = [close] := rfl

@[simp] theorem following_cons (w : Text) (ws : List Text) (close : Char) :
    following (w :: ws) close = ',' :: (w ++ following ws close) := by
  simp [following]

/-- The text of a value, without blanks around it. -/
inductive IsValue : Text → Prop where
  | scalar {t : Text} (h : IsScalar t) : IsValue t
  | array {blanks : Text} {items : List Item} (hblanks : IsBlanks blanks)
      (hspaced : ∀ i ∈ items, i.Spaced) (h : ∀ i ∈ items, IsValue i.value) :
      IsValue ('[' :: enclosed blanks (items.map Item.text) ']')
  | object {blanks : Text} {members : List Member} (hblanks : IsBlanks blanks)
      (hspaced : ∀ m ∈ members, m.Spaced) (h : ∀ m ∈ members, IsValue m.item.value) :
      IsValue ('{' :: enclosed blanks (members.map Member.text) '}')

structure Item.Valid (i : Item) : Prop extends i.Spaced where
  value : IsValue i.value

structure Member.Valid (m : Member) : Prop extends m.Spaced where
  value : IsValue m.item.value

theorem isValue_array {blanks : Text} {items : List Item} (hblanks : IsBlanks blanks)
    (h : ∀ i ∈ items, i.Valid) : IsValue ('[' :: enclosed blanks (items.map Item.text) ']') :=
  .array hblanks (fun i hi => (h i hi).toSpaced) fun i hi => (h i hi).value

theorem isValue_object {blanks : Text} {members : List Member} (hblanks : IsBlanks blanks)
    (h : ∀ m ∈ members, m.Valid) :
    IsValue ('{' :: enclosed blanks (members.map Member.text) '}') :=
  .object hblanks (fun m hm => (h m hm).toSpaced) fun m hm => (h m hm).value

end Json

end UrlPolicy
