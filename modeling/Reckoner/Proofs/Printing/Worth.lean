/-
The tree that a printed program is read as means what the program means.
The two trees differ in parentheses, which mean nothing, and in the
literals that are written as operations. An operation stands for a number
that has no literal, and here its value is worked out: a division for
infinity, a difference or a product for a minus sign, and a sum of texts
for a text that holds quotes of both kinds.
-/
import Reckoner.Proofs.Evaluation.Meaning
import Reckoner.Proofs.Printing.Spelling

namespace Reckoner

open Reckoner.Derivation

-- ============================================= numbers without a literal

namespace Binary64

/-- The quotient that infinity is written as. -/
theorem one_div_zero : one / zero = infinity := by decide +kernel

/-- A product is the only way to zero with a minus sign: a difference of
zeros has none. -/
theorem zero_mul_minus_one : zero * (zero - one) = negativeZero := by decide +kernel

/-- A difference from zero is the number below. -/
theorem zero_sub {m : Magnitude} (h : m.isZero = false) :
    zero - signed false m = signed true m := by
  show zero.add (signed true m) = signed true m
  have hzero : Magnitude.zero.isInfinite = false := by decide
  have hexact : exact false .zero + exact true m = -(m.units : Int) := by
    simp [exact]
  have hunits : m.units ≠ 0 := by
    intro hunits
    have hm := m.ofQuotient_units
    rw [hunits, Magnitude.ofQuotient_eq_zero (by decide)] at hm
    rw [← hm] at h
    cases h
  unfold zero add
  dsimp only
  rw [hzero, hexact]
  by_cases hinfinite : m.isInfinite = true
  · rw [hinfinite]
    rfl
  · rw [if_neg (by decide), if_neg hinfinite, if_neg (by omega), Int.natAbs_neg, Int.natAbs_natCast,
      Magnitude.ofQuotient_units]
    congr
    rw [decide_eq_true_eq]
    omega

/-- There is one infinity above. -/
theorem eq_infinity {m : Magnitude} (h : m.isInfinite = true) : signed false m = infinity := by
  obtain rfl : m = .infinity := Magnitude.ext (beq_iff_eq.1 h)
  rfl

end Binary64

-- ================================================= what spellings are worth

namespace Spelling

/-- The spelling of an operation is read as the operation in a group, at
whichever rank its operator stands. -/
theorem tree_operation (op : Operator) (left right : OfPrimary) :
    (operation op left right).tree = .group [.binary op left.tree right.tree] := by
  unfold operation enclosed
  split <;> rfl

/-- The spelling of a choice is read as the choice in a group. -/
theorem tree_choice (condition whenTrue whenFalse : OfPrimary) :
    (choice condition whenTrue whenFalse).tree
      = .group [.conditional condition.tree whenTrue.tree whenFalse.tree] := rfl

variable {φ σ : Type} [HostFunction φ] (host : Host φ σ) (env : Environment φ)

/-- Parentheses mean nothing. -/
theorem meaning_group (e : Expr) : (Expr.group [e]).meaning host env = e.meaning host env := by
  show (e.meaning host env >>= fun x => pure x) = _
  exact bind_pure _

/-- An operation on operands that are worth something is worth what they are
combined to. -/
theorem meaning_operation (op : Operator) (left right : OfPrimary) {x y : Value φ}
    (hleft : left.tree.meaning host env = pure x) (hright : right.tree.meaning host env = pure y) :
    (operation op left right).tree.meaning host env = pure (x.combine op y) := by
  rw [tree_operation, meaning_group, Expr.meaning, hleft, hright, pure_bind, pure_bind]

/-- A magnitude is worth itself, and where it has no literal the quotient is
worth infinity. -/
theorem meaning_magnitude (m : Magnitude) :
    (magnitude m).tree.meaning host env = pure (.number (.signed false m)) := by
  unfold magnitude
  split
  · next hinfinite =>
    rw [meaning_operation host env .div one zero rfl rfl, Binary64.eq_infinity hinfinite,
      ← Binary64.one_div_zero]
    rfl
  · rfl

/-- Every number is worth itself as it is spelled, its sign and that of zero
included. -/
theorem meaning_number (x : Binary64) :
    (number x).tree.meaning host env = pure (.number x) := by
  match x with
  | .nan => rfl
  | .signed false m => exact meaning_magnitude host env m
  | .signed true m =>
    rw [number]
    split
    · next hzero =>
      obtain rfl : m = .zero := Magnitude.ext (beq_iff_eq.1 hzero)
      rw [meaning_operation host env .mul zero _ rfl
        (meaning_operation host env .sub zero one rfl rfl)]
      exact congrArg (fun x => pure (Value.number x)) Binary64.zero_mul_minus_one
    · next hzero =>
      rw [meaning_operation host env .sub zero _ rfl (meaning_magnitude host env m)]
      exact congrArg (fun x => pure (Value.number x)) (Binary64.zero_sub (by simpa using hzero))

/-- The sum of the chunks is the text that they make together. -/
theorem meaning_chunkSum (chunks : List (List Char)) :
    (chunkSum chunks).tree.meaning host env = pure (.text (String.ofList chunks.flatten)) := by
  induction chunks with
  | nil => rfl
  | cons cs chunks ih =>
    cases chunks with
    | nil =>
      rw [List.flatten_cons, List.flatten_nil, List.append_nil]
      rfl
    | cons cs' chunks =>
      have htree : (chunkSum (cs :: cs' :: chunks)).tree
          = .binary .add (chunk cs).tree (chunkSum (cs' :: chunks)).tree := rfl
      have hjoined : String.ofList (cs :: cs' :: chunks).flatten
          = String.ofList cs ++ String.ofList (cs' :: chunks).flatten := String.ofList_append
      rw [htree, Expr.meaning, ih, hjoined]
      rfl

/-- A text is worth itself, whether it is one literal or a sum of them. -/
theorem meaning_text (s : String) : (text s).tree.meaning host env = pure (.text s) := by
  have hflat : (Printer.quoteChunks s.toList).flatten = s.toList := Printer.flatten_chunksFrom _ _
  unfold text
  generalize Printer.quoteChunks s.toList = chunks at hflat ⊢
  split
  · next only =>
    rw [List.flatten_singleton] at hflat
    rw [hflat, chunk, String.ofList_toList]
    rfl
  · show (Expr.group [(chunkSum chunks).tree]).meaning host env = _
    rw [meaning_group, meaning_chunkSum, hflat, String.ofList_toList]

end Spelling

open Spelling

section SameMeaning

variable {φ σ : Type} [HostFunction φ] (host : Host φ σ) (env : Environment φ)

mutual

/-- The tree that a printed tree is read as means the same. -/
theorem Expr.meaning_spelling (e : Expr) (h : e.printable = true) :
    e.spelling.tree.meaning host env = e.meaning host env := by
  cases e with
  | number x => exact meaning_number host env x
  | text s => exact meaning_text host env s
  | identifier name => rfl
  | binary op left right =>
    simp only [Expr.printable, Bool.and_eq_true] at h
    rw [Expr.spelling, tree_operation, meaning_group, Expr.meaning, Expr.meaning,
      left.meaning_spelling h.1, right.meaning_spelling h.2]
  | conditional condition whenTrue whenFalse =>
    simp only [Expr.printable, Bool.and_eq_true] at h
    rw [Expr.spelling, tree_choice, meaning_group, Expr.meaning, Expr.meaning,
      condition.meaning_spelling h.1.1, whenTrue.meaning_spelling h.1.2,
      whenFalse.meaning_spelling h.2]
  | call name arguments =>
    simp only [Expr.printable, Bool.and_eq_true] at h
    cases arguments with
    | nil => rfl
    | cons e rest =>
      show (Expr.call name (Expr.spellingAll (e :: rest)).trees).meaning host env = _
      rw [Expr.meaning, Expr.meaning,
        (Expr.meaning_spellingAll (e :: rest) (List.cons_ne_nil _ _) h.2).1]
  | group statement =>
    simp only [Expr.printable, Bool.and_eq_true, Bool.not_eq_true', List.isEmpty_eq_false_iff] at h
    exact (Expr.meaning_spellingAll statement h.1 h.2).2 .undefined

/-- The same of a row: of its values as arguments, and of its last value as
a statement. -/
theorem Expr.meaning_spellingAll (row : List Expr) (hnonempty : row ≠ [])
    (h : Expr.allPrintable row = true) :
    Expr.meaningEach host env (Expr.spellingAll row).trees = Expr.meaningEach host env row ∧
      ∀ last, Expr.meaningLast host env last (Expr.spellingAll row).trees
        = Expr.meaningLast host env last row := by
  match row with
  | [] => exact absurd rfl hnonempty
  | [e] =>
    simp only [Expr.allPrintable, Bool.and_true] at h
    have he := e.meaning_spelling h
    have htrees : (Expr.spellingAll [e]).trees = [e.spelling.tree] := rfl
    rw [htrees]
    constructor
    · simp only [Expr.meaningEach, he]
    · intro last
      simp only [Expr.meaningLast, he]
  | e :: e' :: rest =>
    rw [Expr.allPrintable, Bool.and_eq_true] at h
    have he := e.meaning_spelling h.1
    obtain ⟨heach, hlast⟩ := Expr.meaning_spellingAll (e' :: rest) (List.cons_ne_nil _ _) h.2
    have htrees : (Expr.spellingAll (e :: e' :: rest)).trees
        = e.spelling.tree :: (Expr.spellingAll (e' :: rest)).trees := rfl
    rw [htrees]
    constructor
    · rw [Expr.meaningEach, Expr.meaningEach, he, heach]
    · intro last
      rw [Expr.meaningLast, Expr.meaningLast, he]
      exact bind_congr fun x => hlast x

end

/-- The program that a printed program is read as means the same. -/
theorem Program.meaning_spelling (p : Program) (h : p.printable = true) :
    p.spelling.tree.meaning host env = p.meaning host env := by
  obtain ⟨ss⟩ := p
  simp only [Program.printable, Bool.and_eq_true, Bool.not_eq_true', List.isEmpty_eq_false_iff,
    List.all_eq_true] at h
  obtain ⟨hnonempty, hall⟩ := h
  suffices ∀ start : Value φ,
      (Program.spellingOf ss).statements.foldlM
        (fun _ s => Expr.meaningLast host env .undefined s) start
        = ss.foldlM (fun _ s => Expr.meaningLast host env .undefined s) start from this .undefined
  intro start
  induction ss generalizing start with
  | nil => exact absurd rfl hnonempty
  | cons s ss ih =>
    obtain ⟨hs, hprintable⟩ := hall s List.mem_cons_self
    have hrow := (Expr.meaning_spellingAll host env s hs hprintable).2 .undefined
    cases ss with
    | nil =>
      show [(Expr.spellingAll s).trees].foldlM _ _ = _
      rw [List.foldlM_cons, List.foldlM_cons, hrow]
    | cons s' ss =>
      show ((Expr.spellingAll s).trees :: (Program.spellingOf (s' :: ss)).statements).foldlM _ _ = _
      rw [List.foldlM_cons, List.foldlM_cons, hrow]
      exact bind_congr fun x =>
        ih (List.cons_ne_nil _ _) (fun s hs => hall s (List.mem_cons_of_mem _ hs)) x

end SameMeaning

end Reckoner
