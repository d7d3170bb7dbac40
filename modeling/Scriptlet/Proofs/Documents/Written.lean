import Scriptlet.Json.Write
import Scriptlet.Proofs.Writing
import Scriptlet.Text.Newline

/-!
# What documents are written with

The text of a document has no control characters but line feeds, whatever strings it holds.  So
nothing is lost where text is read with its line ends unified.

* `Visible`, `AllVisible`: the characters that a document is written with.
* `allVisible_writeString`, `allVisible_realTextWith`: the texts of strings and of numbers.
* `allVisible_writeBefore`: the texts of documents, one case for each sort.
* `unifyNewlines_write` is the result.
* `HoldsSurrogate`: the documents that cannot be written to their end, by
  `unencodable?_eq_none_iff`.
-/

namespace Scriptlet
namespace Json

/-- A character that is no control character but a line feed. -/
def Visible (c : Char) : Prop := c = '\n' ∨ 0x20 ≤ c.toNat

/-- A text of such characters. -/
def AllVisible (cs : List Char) : Prop := ∀ c ∈ cs, Visible c

section AllVisible

variable {c : Char} {cs ds : List Char}

@[simp] theorem allVisible_nil : AllVisible [] := fun _ hc => nomatch hc

@[simp] theorem allVisible_cons : AllVisible (c :: cs) ↔ Visible c ∧ AllVisible cs :=
  List.forall_mem_cons

@[simp] theorem allVisible_append : AllVisible (cs ++ ds) ↔ AllVisible cs ∧ AllVisible ds :=
  List.forall_mem_append

theorem AllVisible.mono (h : AllVisible cs) (hsub : ds ⊆ cs) : AllVisible ds :=
  fun c hc => h c (hsub hc)

theorem allVisible_replicate (h : Visible c) (n : Nat) : AllVisible (List.replicate n c) := by
  intro d hd
  rw [List.eq_of_mem_replicate hd]
  exact h

instance (c : Char) : Decidable (Visible c) := inferInstanceAs (Decidable (_ ∨ _))

instance (cs : List Char) : Decidable (AllVisible cs) := List.decidableBAll Visible cs

end AllVisible

/-! ## Numbers -/

theorem allVisible_toDigits (n : Nat) : AllVisible (Nat.toDigits 10 n) := by
  intro c hc
  have hdigit := Nat.isDigit_of_mem_toDigits (by decide) (by decide) hc
  rw [Char.isDigit, Bool.and_eq_true, decide_eq_true_eq, decide_eq_true_eq] at hdigit
  exact Or.inr (Nat.le_trans (by decide) (UInt32.le_iff_toNat_le.mp hdigit.1))

theorem allVisible_positional (s : Decimal.Style) {digits : List Char} (h : AllVisible digits)
    (point : Int) : AllVisible (Decimal.positional s digits point) := by
  have hzeros := allVisible_replicate (c := '0') (by decide)
  unfold Decimal.positional
  split
  · exact allVisible_append.mpr ⟨allVisible_cons.mpr ⟨by decide, allVisible_cons.mpr
      ⟨by decide, hzeros _⟩⟩, h⟩
  · split
    · exact allVisible_append.mpr ⟨h.mono (List.take_subset ..),
        allVisible_cons.mpr ⟨by decide, h.mono (List.drop_subset ..)⟩⟩
    · refine allVisible_append.mpr ⟨allVisible_append.mpr ⟨h, hzeros _⟩, ?_⟩
      split <;> decide

theorem allVisible_scientific (s : Decimal.Style) {digits : List Char} (h : AllVisible digits)
    (point : Int) : AllVisible (Decimal.scientific s digits point) := by
  have hexponent : AllVisible (s.exponentText (point - 1).natAbs) :=
    allVisible_append.mpr ⟨allVisible_replicate (by decide) _, allVisible_toDigits _⟩
  have hsign : Visible (if point - 1 < 0 then '-' else '+') := by
    split <;> decide
  unfold Decimal.scientific
  refine allVisible_append.mpr ⟨?_, allVisible_cons.mpr
    ⟨by decide, allVisible_cons.mpr ⟨hsign, hexponent⟩⟩⟩
  split
  · rw [allVisible_cons, allVisible_cons] at h
    exact allVisible_cons.mpr ⟨h.1, allVisible_cons.mpr ⟨by decide, allVisible_cons.mpr h.2⟩⟩
  · exact h

theorem allVisible_finiteText (x : Float) : AllVisible (finiteText x) := by
  have hmagnitude : AllVisible (if Binary64.magnitudeBits x = 0 then ['0', '.', '0']
      else Decimal.write realStyle (Decimal.shortest (Binary64.parts x))) := by
    split
    · decide
    · unfold Decimal.write
      dsimp only
      split
      · exact allVisible_positional _ (allVisible_toDigits _) _
      · exact allVisible_scientific _ (allVisible_toDigits _) _
  unfold finiteText
  dsimp only
  split
  · exact allVisible_cons.mpr ⟨by decide, hmagnitude⟩
  · exact hmagnitude

/-- The texts of numbers, however infinite ones are called. -/
theorem allVisible_realTextWith {nan infinity : List Char} (hnan : AllVisible nan)
    (hinfinity : AllVisible infinity) (x : Float) : AllVisible (realTextWith nan infinity x) := by
  unfold realTextWith
  split
  · exact hnan
  · split
    · split
      · exact allVisible_cons.mpr ⟨by decide, hinfinity⟩
      · exact hinfinity
    · exact allVisible_finiteText x

theorem allVisible_integerText (n : Int) : AllVisible (integerText n) := by
  unfold integerText
  split
  · exact allVisible_cons.mpr ⟨by decide, allVisible_toDigits _⟩
  · exact allVisible_toDigits _

/-! ## Strings -/

/-- Control characters are escaped. -/
theorem allVisible_writeChar (c : Char) : AllVisible (writeChar c) := by
  have hescapes : ∀ n < 0x20, AllVisible (Text.hexadecimal 4 n) := by decide
  unfold writeChar
  split
  · rename_i hc
    rcases hc with rfl | rfl <;> decide
  · -- the control characters that have an escape of their own
    iterate 5 (split; · decide)
    split
    · rename_i hcontrol
      exact allVisible_cons.mpr ⟨by decide, allVisible_cons.mpr ⟨by decide, hescapes _ hcontrol⟩⟩
    · rename_i hplain
      exact allVisible_cons.mpr ⟨Or.inr (Nat.not_lt.mp hplain), allVisible_nil⟩

theorem allVisible_writeString (s : String) : AllVisible (writeString s) := by
  have hchars : AllVisible (s.toList.flatMap writeChar) := by
    intro c hc
    obtain ⟨d, -, hd⟩ := List.mem_flatMap.mp hc
    exact allVisible_writeChar d c hd
  exact allVisible_append.mpr ⟨allVisible_cons.mpr ⟨by decide, hchars⟩, by decide⟩

theorem allVisible_writeText (t : Text) {rest : List Char} (h : AllVisible rest) :
    AllVisible (writeText t rest) := by
  cases t with
  | plain s => exact allVisible_append.mpr ⟨allVisible_writeString s, h⟩
  | broken => exact allVisible_nil

/-! ## Documents -/

theorem Layout.allVisible_edge (l : Layout) (depth : Nat) : AllVisible (l.edge depth) := by
  cases l with
  | oneLine => exact allVisible_nil
  | indented => exact allVisible_cons.mpr ⟨by decide, allVisible_replicate (by decide) _⟩

theorem Layout.allVisible_comma (l : Layout) (depth : Nat) : AllVisible (l.comma depth) := by
  cases l with
  | oneLine => exact allVisible_cons.mpr ⟨by decide, by decide⟩
  | indented => exact allVisible_cons.mpr ⟨by decide, Layout.allVisible_edge .indented depth⟩

/-- The key of a member and what separates it from its value. -/
theorem allVisible_key {k : Text} {rest : List Char} (h : AllVisible rest) :
    AllVisible (writeText k (':' :: ' ' :: rest)) :=
  allVisible_writeText k (allVisible_cons.mpr ⟨by decide, allVisible_cons.mpr ⟨by decide, h⟩⟩)

mutual
theorem allVisible_writeBefore (l : Layout) (depth : Nat) {rest : List Char}
    (h : AllVisible rest) : ∀ j, AllVisible (writeBefore l depth j rest)
  | .null => allVisible_append.mpr ⟨by decide, h⟩
  | .bool true => allVisible_append.mpr ⟨by decide, h⟩
  | .bool false => allVisible_append.mpr ⟨by decide, h⟩
  | .integer n => allVisible_append.mpr ⟨allVisible_integerText n, h⟩
  | .real x => allVisible_append.mpr
      ⟨allVisible_realTextWith (by decide) (by decide) x, h⟩
  | .string s => allVisible_writeText s h
  | .array [] => allVisible_cons.mpr ⟨by decide, allVisible_cons.mpr ⟨by decide, h⟩⟩
  | .object [] => allVisible_cons.mpr ⟨by decide, allVisible_cons.mpr ⟨by decide, h⟩⟩
  | .array (item :: items) => by
    have hclosed : AllVisible (l.edge depth ++ ']' :: rest) :=
      allVisible_append.mpr ⟨l.allVisible_edge depth, allVisible_cons.mpr ⟨by decide, h⟩⟩
    have hitems := allVisible_writeItems l (depth + 1) hclosed items
    rw [writeBefore]
    exact allVisible_append.mpr ⟨allVisible_cons.mpr ⟨by decide, l.allVisible_edge (depth + 1)⟩,
      allVisible_writeBefore l (depth + 1) hitems item⟩
  | .object ((k, v) :: members) => by
    have hclosed : AllVisible (l.edge depth ++ '}' :: rest) :=
      allVisible_append.mpr ⟨l.allVisible_edge depth, allVisible_cons.mpr ⟨by decide, h⟩⟩
    have hmembers := allVisible_writeMembers l (depth + 1) hclosed members
    have hvalue := allVisible_writeBefore l (depth + 1) hmembers v
    rw [writeBefore]
    exact allVisible_append.mpr ⟨allVisible_cons.mpr ⟨by decide, l.allVisible_edge (depth + 1)⟩,
      allVisible_key hvalue⟩
theorem allVisible_writeItems (l : Layout) (depth : Nat) {rest : List Char}
    (h : AllVisible rest) : ∀ items, AllVisible (writeItems l depth items rest)
  | [] => h
  | item :: items => by
    rw [writeItems]
    exact allVisible_append.mpr ⟨l.allVisible_comma depth,
      allVisible_writeBefore l depth (allVisible_writeItems l depth h items) item⟩
theorem allVisible_writeMembers (l : Layout) (depth : Nat) {rest : List Char}
    (h : AllVisible rest) : ∀ members, AllVisible (writeMembers l depth members rest)
  | [] => h
  | (k, v) :: members => by
    have hvalue := allVisible_writeBefore l depth (allVisible_writeMembers l depth h members) v
    rw [writeMembers]
    exact allVisible_append.mpr ⟨l.allVisible_comma depth, allVisible_key hvalue⟩
end

end Json

/-! ## Line ends -/

/-- Without carriage returns there is nothing to unify. -/
theorem Text.unifyNewlines_of_not_mem {cs : List Char} (h : '\r' ∉ cs) : unifyNewlines cs = cs := by
  fun_induction unifyNewlines cs with
  | case1 => exact (h (List.mem_cons_self ..)).elim
  | case2 => exact (h (List.mem_cons_self ..)).elim
  | case3 c cs _ _ ih => rw [ih fun hcs => h (List.mem_cons_of_mem c hcs)]
  | case4 => rfl

/-- **A document is read with the line ends that it was written with.** -/
theorem Json.unifyNewlines_write (l : Layout) (j : Json) :
    Text.unifyNewlines (write l j).toList = (write l j).toList := by
  refine Text.unifyNewlines_of_not_mem fun hmem => ?_
  rw [write, String.toList_ofList] at hmem
  have hvisible := allVisible_writeBefore l 0 allVisible_nil j '\r' hmem
  revert hvisible
  decide

/-! ## Documents that can be written -/

namespace Json

/-- A text or a key somewhere in the document holds a surrogate. -/
inductive HoldsSurrogate : Json → Prop
  | text {t : Text} (h : ¬ t.IsPlain) : HoldsSurrogate (.string t)
  | item {items : List Json} {item : Json} (hitem : item ∈ items) (h : HoldsSurrogate item) :
      HoldsSurrogate (.array items)
  | key {members : List (Text × Json)} {member : Text × Json} (hmember : member ∈ members)
      (h : ¬ member.1.IsPlain) : HoldsSurrogate (.object members)
  | value {members : List (Text × Json)} {member : Text × Json} (hmember : member ∈ members)
      (h : HoldsSurrogate member.2) : HoldsSurrogate (.object members)

theorem textUnencodable?_eq_none_iff {t : Text} : textUnencodable? t = none ↔ t.IsPlain := by
  cases t with
  | plain s => exact iff_of_true rfl (Text.isPlain_plain s)
  | broken front unit rest => exact iff_of_false nofun (Text.not_isPlain_broken front unit rest)

mutual
/-- **A document is written to its end exactly if it holds no surrogate.** -/
theorem unencodable?_eq_none_iff : ∀ {j : Json}, j.unencodable? = none ↔ ¬ j.HoldsSurrogate
  | .null | .bool _ | .integer _ | .real _ => iff_of_true rfl nofun
  | .string t => by
    rw [unencodable?, textUnencodable?_eq_none_iff]
    constructor
    · intro hplain hholds
      cases hholds with
      | text hbroken => exact hbroken hplain
    · exact fun h => Classical.not_not.mp fun hbroken => h (.text hbroken)
  | .array items => by
    rw [unencodable?, itemsUnencodable?_eq_none_iff]
    constructor
    · intro h hholds
      cases hholds with
      | item hitem hholds => exact h _ hitem hholds
    · exact fun h item hitem hholds => h (.item hitem hholds)
  | .object members => by
    rw [unencodable?, membersUnencodable?_eq_none_iff]
    constructor
    · intro h hholds
      cases hholds with
      | key hmember hbroken => exact hbroken (h _ hmember).1
      | value hmember hholds => exact (h _ hmember).2 hholds
    · exact fun h member hmember =>
        ⟨Classical.not_not.mp fun hbroken => h (.key hmember hbroken),
          fun hholds => h (.value hmember hholds)⟩
theorem itemsUnencodable?_eq_none_iff : ∀ {items : List Json},
    itemsUnencodable? items = none ↔ ∀ item ∈ items, ¬ item.HoldsSurrogate
  | [] => iff_of_true rfl nofun
  | item :: items => by
    rw [itemsUnencodable?, Option.or_eq_none_iff, unencodable?_eq_none_iff,
      itemsUnencodable?_eq_none_iff, List.forall_mem_cons]
theorem membersUnencodable?_eq_none_iff : ∀ {members : List (Text × Json)},
    membersUnencodable? members = none ↔
      ∀ member ∈ members, member.1.IsPlain ∧ ¬ member.2.HoldsSurrogate
  | [] => iff_of_true rfl nofun
  | (k, v) :: members => by
    rw [membersUnencodable?, Option.or_eq_none_iff, Option.or_eq_none_iff,
      textUnencodable?_eq_none_iff, unencodable?_eq_none_iff, membersUnencodable?_eq_none_iff,
      List.forall_mem_cons, and_assoc]
end

end Json
end Scriptlet
