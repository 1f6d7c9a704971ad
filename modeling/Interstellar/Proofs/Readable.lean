import Interstellar.Target.Eval
import Interstellar.Proofs.Quoting

/-!
# Compiled text the target reads

`Term.run` hands a term's compiled text to the target, which refuses it before anything runs
when it holds a NUL, when a bracket is opened more than `maxNesting` deep, when a string literal
cannot be read, or when an abstraction is over a negative number. None of that happens to a
readable term (`Term.Readable`: its string literals hold no carriage return and no NUL, and its
abstractions are over numbers that are not negative) whose compiled text nests at most
`maxNesting` deep.

* `Term.lexFault_eq_none`: reading such a text meets no fault, by induction on the term: the
  operands of a node are read at the depth its brackets put them, which `Term.nesting` counts;
* `Term.run_eq_runN`: such a term that compiles runs as its compiled code evaluates.
-/

namespace Interstellar

namespace Term

/-- A term whose compiled text the target can read: its string literals hold no carriage
return and no NUL, and its abstractions are over numbers that are not negative, so that their
names `v0, v1, …` are names. -/
def Readable : Term → Prop
  | .lit _ (.str s) => ∀ c ∈ s.toList, c ≠ '\r' ∧ c ≠ '\x00'
  | .lit _ _ => True
  | .unary _ a => a.Readable
  | .binary _ a b => a.Readable ∧ b.Readable
  | .lam x b => 0 ≤ x ∧ b.Readable
  | .var _ => True
  | .cond c t e => c.Readable ∧ t.Readable ∧ e.Readable
  | .raw _ => True

theorem holdsNul_eq_false {t : Term} (h : t.Readable) : t.holdsNul = false := by
  induction t with
  | lit k v =>
    cases k <;> cases v <;> simp only [holdsNul]
    all_goals simpa [Readable] using fun h' => (h _ h').2 rfl
  | unary op a ih => exact ih h
  | binary op a b iha ihb => simp [holdsNul, iha h.1, ihb h.2]
  | lam x b ih => exact ih h.2
  | var x => rfl
  | cond c t e ihc iht ihe => simp [holdsNul, ihc h.1, iht h.2.1, ihe h.2.2]
  | raw d => rfl

theorem namesBound_eq_true {t : Term} (h : t.Readable) : t.namesBound = true := by
  induction t with
  | lit k v => rfl
  | unary op a ih => exact ih h
  | binary op a b iha ihb => simp [namesBound, iha h.1, ihb h.2]
  | lam x b ih => simp [namesBound, h.1, ih h.2]
  | var x => rfl
  | cond c t e ihc iht ihe => simp [namesBound, ihc h.1, iht h.2.1, ihe h.2.2]
  | raw d => rfl

/-- The target reads the compiled literal of a string without carriage returns and NULs. -/
theorem literalReads_eq_true {s : String} (hs : ∀ c ∈ s.toList, c ≠ '\r' ∧ c ≠ '\x00') :
    literalReads s = true := by
  simp only [literalReads, List.cons_append, Literal.read_escaped hs [], Option.isSome_some]

theorem openAt_eq_none {depth : Nat} (h : depth ≤ maxNesting) : openAt depth = none := by
  simp [openAt, Nat.not_lt.2 h]

/-- **No fault in reading a readable text within the limit.** A readable term whose compiled
text, standing `depth` brackets deep, nests at most `maxNesting` deep is read without a fault.
The cases follow the operators whose text nests its operands differently. -/
theorem lexFault_eq_none {t : Term} {depth : Nat} (hr : t.Readable)
    (hn : depth + t.nesting ≤ maxNesting) : t.lexFault depth = none := by
  induction t generalizing depth with
  | lit k v =>
    simp only [nesting] at hn
    -- only a string literal is read for its text; any other literal is one bracket
    cases k with
    | string =>
      cases v with
      | str s => simp [lexFault, openAt_eq_none hn, literalReads_eq_true hr]
      | _ => exact openAt_eq_none hn
    | _ => exact openAt_eq_none hn
  | unary op a ih =>
    -- `-` and `!` put the operand two deep, every other operator three deep
    by_cases h1 : op = "-" ∨ op = "!"
    · rcases h1 with rfl | rfl <;> simp only [lexFault, nesting] at hn ⊢ <;>
        exact ih hr (by omega)
    obtain ⟨hm, hb⟩ := not_or.1 h1
    simp only [lexFault, nesting] at hn ⊢
    exact ih hr (by omega)
  | binary op a b iha ihb =>
    -- `/` and `%` put both operands two deep, `T` and `D` the count and `$` the argument two
    -- deep and the other operand one deep, and every other operator both one deep
    by_cases h1 : op = "/" ∨ op = "%"
    · rcases h1 with rfl | rfl <;> simp only [lexFault, nesting, Option.or_eq_none_iff] at hn ⊢ <;>
        exact ⟨iha hr.1 (by omega), ihb hr.2 (by omega)⟩
    by_cases h2 : op = "T" ∨ op = "D"
    · rcases h2 with rfl | rfl <;> simp only [lexFault, nesting, Option.or_eq_none_iff] at hn ⊢ <;>
        exact ⟨ihb hr.2 (by omega), iha hr.1 (by omega)⟩
    by_cases h3 : op = "$"
    · subst h3
      simp only [lexFault, nesting, Option.or_eq_none_iff] at hn ⊢
      exact ⟨iha hr.1 (by omega), ihb hr.2 (by omega)⟩
    -- the equations of the other operators ask for the five above to be ruled out
    obtain ⟨hd, hm⟩ := not_or.1 h1
    obtain ⟨hT, hD⟩ := not_or.1 h2
    simp only [lexFault, nesting, Option.or_eq_none_iff] at hn ⊢
    exact ⟨iha hr.1 (by omega), ihb hr.2 (by omega)⟩
  | lam x b ih =>
    simp only [lexFault, nesting] at hn ⊢
    exact ih hr.2 (by omega)
  | var x =>
    simp only [lexFault, nesting] at hn ⊢
    exact openAt_eq_none (by omega)
  | cond c t e ihc iht ihe =>
    simp only [lexFault, nesting, Option.or_eq_none_iff] at hn ⊢
    exact ⟨iht hr.2.1 (by omega), ihc hr.1 (by omega), ihe hr.2.2 (by omega)⟩
  | raw d =>
    simp only [lexFault, nesting] at hn ⊢
    exact openAt_eq_none (by omega)

/-- A readable term that compiles, and whose compiled text nests within the target's limit,
runs as its compiled code evaluates. -/
theorem run_eq_runN {t : Term} {src : String} (hsrc : t.compile = .ok src) (hr : t.Readable)
    (hn : t.nesting ≤ maxNesting) : t.run = runN runDepth [] t := by
  have hlex : t.lexFault 0 = none := lexFault_eq_none hr (by simpa using hn)
  simp only [run, hsrc, ok_bind, holdsNul_eq_false hr, Bool.false_eq_true, if_false, hlex,
    namesBound_eq_true hr, Bool.not_true]

end Term

end Interstellar
