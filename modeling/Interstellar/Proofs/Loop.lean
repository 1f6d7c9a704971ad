import Interstellar.Builder
import Interstellar.Term.Document
import Interstellar.Proofs.Closure

/-!
# Counted loops

`Builder.loop id n f step` ties the rounds of a loop together with the fixed-point
combinator. A round tests its count against `1`: it gives `f` if the count is `1`, and
otherwise combines `f` by `step` with the next round, which it reaches by applying the loop
variable `id` to the count less one. The count is passed unevaluated, so the `k`-th round
tests the term `n - 1 - ⋯ - 1`.

With a binary operator other than application as `step` and a closed `f`, the loop evaluates
as `n` copies of `f` combined to the right, once the depth limit is set aside. The exception
is a count `n` that is also the loop variable's number. Then the abstraction over the count
hides the loop variable, and the next round is asked of the count itself, so no loop of two
rounds or more gives a value. `Builder.repeatLetter` numbers its loop variable `3` and so
fails on a count of `3`.

* `Term.ofDoc_binop`, `ofDoc_lam`, `ofDoc_var`, `ofDoc_cond`: the builders read back as the
  nodes they name;
* `Term.Evaluates.unique`, `evaluates_app_iff`, `evaluates_binary_iff`, `evaluates_cond_iff`:
  evaluation with the depth set aside, node by node;
* `Term.nest op f m`: `m + 1` copies of `f` combined by `op`, nested to the right;
* `Term.round`: one round of the loop on a count term; `evaluates_round` says that a round
  whose count gives `m + 1` evaluates as `nest op f m`;
* `Term.evaluates_loopTerm_nest`: the loop term as a whole; `loop_evaluates_as_nest` says the
  same of the loop that `Builder.loop` builds;
* `Term.evaluates_repeatLetter`: `repeatLetter s n` spells `s` `n` times unless `n = 3`;
  `Term.repeat_letter_three_fails` is that clash on one letter.
-/

namespace Interstellar

namespace Term

/-! ### The builders read back -/

section Builders

open Builder

@[simp] theorem ofDoc_binop (op : String) (a b : Doc) :
    ofDoc (binop op a b) = .binary op (ofDoc a) (ofDoc b) := by
  rw [ofDoc]
  rfl

@[simp] theorem ofDoc_lam (x : Int) (b : Doc) :
    ofDoc (Builder.lam (.int x) b) = .lam x (ofDoc b) := by
  rw [ofDoc]
  rfl

@[simp] theorem ofDoc_var (x : Int) : ofDoc (Builder.var (.int x)) = .var x := by
  rw [ofDoc]
  rfl

@[simp] theorem ofDoc_cond (c t e : Doc) :
    ofDoc (Builder.cond c t e) = .cond (ofDoc c) (ofDoc t) (ofDoc e) := by
  rw [ofDoc]
  rfl

@[simp] theorem ofDoc_integer (n : Int) :
    ofDoc (.obj [("type", .str "integer"), ("value", .int n)]) = int n := by
  rw [ofDoc]
  rfl

@[simp] theorem ofDoc_string (s : String) :
    ofDoc (.obj [("type", .str "string"), ("value", .str s)]) = str s := by
  rw [ofDoc]
  rfl

end Builders

/-! ### Evaluation with the depth set aside -/

section Evaluates

variable {t v w : Term}

/-- A term evaluates to at most one node: more depth keeps a finished evaluation. -/
theorem Evaluates.unique (hv : Evaluates t v) (hw : Evaluates t w) : v = w := by
  obtain ⟨n₁, h₁⟩ := hv
  obtain ⟨n₂, h₂⟩ := hw
  have h := (reduceN_mono h₁ (Nat.le_max_left n₁ n₂)).symm.trans
    (reduceN_mono h₂ (Nat.le_max_right n₁ n₂))
  exact Except.ok.inj h

theorem evaluates_lam_iff {x : Int} {b : Term} : Evaluates (.lam x b) w ↔ w = .lam x b :=
  ⟨fun h => h.unique (evaluates_lam x b), fun h => h ▸ evaluates_lam x b⟩

theorem evaluates_app_iff {f a : Term} :
    Evaluates (.binary "$" f a) v ↔
      ∃ x b u, Evaluates f (.lam x b) ∧ b.subst x a = .ok u ∧ Evaluates u v := by
  constructor
  · rintro ⟨n, h⟩
    cases n with
    | zero => simp at h
    | succ n =>
      obtain ⟨x, b, u, hf, hu, h⟩ := reduceN_app_eq_ok.1 h
      exact ⟨x, b, u, ⟨n, hf⟩, hu, ⟨n, h⟩⟩
  · rintro ⟨x, b, u, hf, hu, h⟩
    exact Evaluates.app hf hu h

/-- Applying an abstraction evaluates its body with the argument put in. -/
theorem evaluates_app_lam {x : Int} {b a : Term} :
    Evaluates (.binary "$" (.lam x b) a) v ↔ ∃ u, b.subst x a = .ok u ∧ Evaluates u v := by
  rw [evaluates_app_iff]
  constructor
  · rintro ⟨y, c, u, hf, hu, h⟩
    cases evaluates_lam_iff.1 hf
    exact ⟨u, hu, h⟩
  · rintro ⟨u, hu, h⟩
    exact ⟨x, b, u, evaluates_lam x b, hu, h⟩

theorem evaluates_binary_iff {op : String} (hop : op ≠ "$") {a b : Term} :
    Evaluates (.binary op a b) v ↔
      ∃ l r lv rv, Evaluates a l ∧ Evaluates b r ∧ l.payload = .ok lv ∧ r.payload = .ok rv ∧
        applyBinary op l r lv rv = .ok v := by
  constructor
  · rintro ⟨n, h⟩
    cases n with
    | zero => simp at h
    | succ n =>
      obtain ⟨l, r, lv, rv, hl, hr, hlv, hrv, h⟩ := (reduceN_binary_eq_ok hop).1 h
      exact ⟨l, r, lv, rv, ⟨n, hl⟩, ⟨n, hr⟩, hlv, hrv, h⟩
  · rintro ⟨l, r, lv, rv, ha, hb, hl, hr, h⟩
    exact Evaluates.binary hop ha hb hl hr h

/-- An operator other than application only sees what its operands give: operands with the
same values give the same result. -/
theorem evaluates_binary_congr {op : String} (hop : op ≠ "$") {a b b' : Term}
    (h : ∀ w, Evaluates b w ↔ Evaluates b' w) :
    Evaluates (.binary op a b) v ↔ Evaluates (.binary op a b') v := by
  simp only [evaluates_binary_iff hop, h]

theorem evaluates_cond_iff {c t e : Term} :
    Evaluates (.cond c t e) v ↔
      ∃ w s, Evaluates c w ∧ w.payload = .ok s ∧ Evaluates (if s.truthy then t else e) v := by
  constructor
  · rintro ⟨n, h⟩
    cases n with
    | zero => simp at h
    | succ n =>
      obtain ⟨w, s, hw, hs, h⟩ := reduceN_cond_eq_ok.1 h
      exact ⟨w, s, ⟨n, hw⟩, hs, ⟨n, h⟩⟩
  · rintro ⟨w, s, hw, hs, h⟩
    exact Evaluates.cond hw hs h

/-- A conditional whose test gives a boolean evaluates as the branch it picks. -/
theorem evaluates_cond_of_test {c t e : Term} {b : Bool}
    (hc : Evaluates c (.lit .boolean (.bool b))) :
    Evaluates (.cond c t e) v ↔ Evaluates (if b then t else e) v := by
  rw [evaluates_cond_iff]
  constructor
  · rintro ⟨w, s, hw, hs, h⟩
    cases hw.unique hc
    cases hs
    exact h
  · intro h
    exact ⟨_, .bool b, hc, rfl, h⟩

end Evaluates

/-! ### Loops -/

/-- `m + 1` copies of `f` combined by `op`, nested to the right. -/
def nest (op : String) (f : Term) : Nat → Term
  | 0 => f
  | m + 1 => .binary op f (nest op f m)

/-- One round of a loop on the count term `count`: `f` when the count gives `1`, and
otherwise `f` combined by `op` with `self` applied to the count less one. -/
def round (op : String) (f self count : Term) : Term :=
  .cond (.binary "=" count (int 1)) f
    (.binary op f (.binary "$" self (.binary "-" count (int 1))))

/-- The rounds of a loop, over the loop variable `id` and the count variable `n`. -/
def rounds (id n : Int) (op : String) (f : Term) : Term :=
  .lam id (.lam n (round op f (.var id) (.var n)))

/-- The fixed-point combinator applied to `g`: `(λ1. g (1 1)) (λ1. g (1 1))`. -/
def fixTerm (g : Term) : Term :=
  .binary "$" (.lam 1 (.binary "$" g (.binary "$" (.var 1) (.var 1))))
    (.lam 1 (.binary "$" g (.binary "$" (.var 1) (.var 1))))

/-- The term a loop of `n` rounds reads back as. -/
def loopTerm (id n : Int) (op : String) (f : Term) : Term :=
  .binary "$" (.binary "$" (.lam 0 (fixTerm (.var 0))) (rounds id n op f)) (int n)

theorem ofDoc_loop (id n : Int) (op : String) (f : Doc) :
    ofDoc <$> Builder.loop (.int id) (.int n) f (fun a b => .ok (Builder.binop op a b)) =
      .ok (loopTerm id n op (ofDoc f)) := by
  simp only [Builder.loop, Builder.lit, ok_bind, map_ok, Builder.apply, Builder.fix,
    ofDoc_binop, ofDoc_lam, ofDoc_var, ofDoc_cond, ofDoc_integer]
  rfl

/-! ### Substitution into the loop -/

section Subst

variable {t : Term}

theorem substAll_closed (hc : t.Closed) (σ : List (Int × Term)) : t.substAll σ = t :=
  substAll_eq_self (by simp [show t.fv = [] from hc])

/-- Substitution leaves a closed term without raw nodes as it is. -/
theorem subst_closed (hk : t.WellKinded) (hc : t.Closed) (x : Int) (u : Term) :
    t.subst x u = .ok t := by
  rw [subst_eq_substAll hk, substAll_closed hc]

variable {op : String} {f self count : Term}

theorem round_wellKinded (hf : f.WellKinded) (hs : self.WellKinded) (hc : count.WellKinded) :
    (round op f self count).WellKinded := by
  simp [round, WellKinded, hf, hs, hc]

theorem subst_round (hf : f.WellKinded) (hfc : f.Closed) (hs : self.WellKinded)
    (hc : count.WellKinded) (x : Int) (u : Term) :
    (round op f self count).subst x u =
      .ok (round op f (self.substAll [(x, u)]) (count.substAll [(x, u)])) := by
  rw [subst_eq_substAll (round_wellKinded hf hs hc)]
  simp [round, substAll, substAll_closed hfc]

variable {id n : Int}

theorem rounds_closed (hfc : f.Closed) : (rounds id n op f).Closed := by
  rw [closed_iff]
  intro z hz
  simp [rounds, round, fv, show f.fv = [] from hfc] at hz

theorem rounds_wellKinded (hf : f.WellKinded) : (rounds id n op f).WellKinded :=
  round_wellKinded hf trivial trivial

theorem fixTerm_closed {g : Term} (hg : g.Closed) : (fixTerm g).Closed := by
  rw [closed_iff]
  intro z hz
  simp [fixTerm, fv, show g.fv = [] from hg] at hz

theorem fixTerm_wellKinded {g : Term} (hg : g.WellKinded) : (fixTerm g).WellKinded := by
  simp [fixTerm, WellKinded, hg]

end Subst

/-! ### A loop, round by round -/

section Rounds

variable {op : String} {f : Term} {id n : Int} {v w : Term}

/-- One unfolding of the fixed-point combinator. -/
theorem evaluates_fixTerm {g : Term} (hk : g.WellKinded) (hc : g.Closed) :
    Evaluates (fixTerm g) v ↔ Evaluates (.binary "$" g (fixTerm g)) v := by
  have hs : (Term.binary "$" g (.binary "$" (.var 1) (.var 1))).subst 1
      (.lam 1 (.binary "$" g (.binary "$" (.var 1) (.var 1)))) =
      .ok (.binary "$" g (fixTerm g)) := by
    simp [subst, subst_closed hk hc, fixTerm]
  rw [fixTerm, evaluates_app_lam, hs]
  simp [fixTerm]

/-- The rounds applied to `self` give the abstraction over the count; the loop variable is
`self` there unless the count variable hides it. -/
theorem evaluates_rounds_app (hf : f.WellKinded) (hfc : f.Closed) {self : Term} :
    Evaluates (.binary "$" (rounds id n op f) self) w ↔
      w = .lam n (round op f (if id = n then .var n else self) (.var n)) := by
  rw [rounds, evaluates_app_lam]
  by_cases h : id = n
  · subst h
    simp [subst, evaluates_lam_iff]
  · have hs := @subst_round op f (.var id) (.var n) hf hfc trivial trivial id self
    have hn : (n == id) = false := beq_eq_false_iff_ne.2 (Ne.symm h)
    simp [subst, Ne.symm h, hs, substAll, h, List.lookup_cons, hn, evaluates_lam_iff]

/-- `Y`, the fixed point of the rounds, gives the abstraction over the count. -/
theorem evaluates_self (hf : f.WellKinded) (hfc : f.Closed) :
    Evaluates (fixTerm (rounds id n op f)) w ↔
      w = .lam n (round op f (if id = n then .var n else fixTerm (rounds id n op f)) (.var n)) := by
  rw [evaluates_fixTerm (rounds_wellKinded hf) (rounds_closed hfc), evaluates_rounds_app hf hfc]

/-- Applying a term that gives the abstraction over the count runs the round on the count
it is given. -/
theorem evaluates_app_round (hf : f.WellKinded) (hfc : f.Closed) {head self : Term}
    (hs : self.WellKinded) (hhead : ∀ w, Evaluates head w ↔ w = .lam n (round op f self (.var n)))
    {count : Term} :
    Evaluates (.binary "$" head count) v ↔
      Evaluates (round op f (self.substAll [(n, count)]) count) v := by
  have hsub := @subst_round op f self (.var n) hf hfc hs trivial n count
  rw [evaluates_app_iff]
  simp only [hhead, lam.injEq]
  constructor
  · rintro ⟨x, b, u, ⟨rfl, rfl⟩, hu, h⟩
    rw [hsub] at hu
    cases hu
    simpa [substAll] using h
  · intro h
    exact ⟨n, _, _, ⟨rfl, rfl⟩, hsub, by simpa [substAll] using h⟩

/-- The whole loop: its rounds applied to the count `n`, with the loop variable hidden where
the count variable has its number. -/
theorem evaluates_loopTerm (hf : f.WellKinded) (hfc : f.Closed) :
    Evaluates (loopTerm id n op f) v ↔
      Evaluates (round op f (if id = n then int n else fixTerm (rounds id n op f)) (int n)) v := by
  -- the head `(λ0. fix 0) rounds` gives what the fixed point of the rounds gives
  have hhead : ∀ w, Evaluates (.binary "$" (.lam 0 (fixTerm (.var 0))) (rounds id n op f)) w ↔
      w = .lam n (round op f (if id = n then .var n else fixTerm (rounds id n op f)) (.var n)) := by
    intro w
    rw [evaluates_app_lam, ← evaluates_self hf hfc]
    simp [fixTerm, subst]
  have hk : (if id = n then var n else fixTerm (rounds id n op f)).WellKinded := by
    split
    · trivial
    · exact fixTerm_wellKinded (rounds_wellKinded hf)
  have hself : (if id = n then var n else fixTerm (rounds id n op f)).substAll [(n, int n)] =
      if id = n then int n else fixTerm (rounds id n op f) := by
    split
    · simp [substAll]
    · exact substAll_closed (fixTerm_closed (rounds_closed hfc)) _
  rw [loopTerm, evaluates_app_round hf hfc hk hhead, hself]

/-- The count less one gives the number less one. -/
theorem evaluates_pred {count : Term} {c : Int} (h : Evaluates count (int c)) :
    Evaluates (.binary "-" count (int 1)) (int (c - 1)) :=
  Evaluates.binary (by decide) h (evaluates_lit _ _) rfl rfl
    (by simp [applyBinary, arith, isKind, typeName?, Value.sub, Value.asInt?])

/-- The test of a round: whether the count gives `1`. -/
theorem evaluates_eq_one {count : Term} {c : Int} (h : Evaluates count (int c)) :
    Evaluates (.binary "=" count (int 1)) (.lit .boolean (.bool (c == 1))) :=
  Evaluates.binary (by decide) h (evaluates_lit _ _) rfl rfl
    (by simp [applyBinary, isKind, typeName?, Value.equal, Value.asInt?])

/-- The last round gives `f`, whatever it would apply next. -/
theorem evaluates_round_one {self count : Term} (h : Evaluates count (int 1)) :
    Evaluates (round op f self count) v ↔ Evaluates f v := by
  rw [round, evaluates_cond_of_test (evaluates_eq_one h)]
  rfl

/-- A round with more to do combines `f` with the next round. -/
theorem evaluates_round_more {self count : Term} {c : Int} (h : Evaluates count (int c))
    (hc : c ≠ 1) :
    Evaluates (round op f self count) v ↔
      Evaluates (.binary op f (.binary "$" self (.binary "-" count (int 1)))) v := by
  rw [round, evaluates_cond_of_test (evaluates_eq_one h)]
  simp [hc]

/-- The loop variable, when the count does not hide it, runs the round on the count it is
given. -/
theorem evaluates_self_app (hf : f.WellKinded) (hfc : f.Closed) (hid : id ≠ n) {count : Term} :
    Evaluates (.binary "$" (fixTerm (rounds id n op f)) count) v ↔
      Evaluates (round op f (fixTerm (rounds id n op f)) count) v := by
  have hhead : ∀ w, Evaluates (fixTerm (rounds id n op f)) w ↔
      w = .lam n (round op f (fixTerm (rounds id n op f)) (.var n)) := by
    intro w
    rw [evaluates_self hf hfc, if_neg hid]
  rw [evaluates_app_round hf hfc (fixTerm_wellKinded (rounds_wellKinded hf)) hhead,
    substAll_closed (fixTerm_closed (rounds_closed hfc))]

/-- **A round is the rest of the loop.** A round whose count gives `m + 1` evaluates as `m + 1`
copies of `f` combined by `op`. The induction is on `m`; each round tests its count, and the
next round, reached through the fixed point, is the operator's right operand. -/
theorem evaluates_round (hop : op ≠ "$") (hf : f.WellKinded) (hfc : f.Closed) (hid : id ≠ n) :
    ∀ (m : Nat) {count : Term}, Evaluates count (int ((m : Int) + 1)) →
      ∀ v, (Evaluates (round op f (fixTerm (rounds id n op f)) count) v ↔
        Evaluates (nest op f m) v)
  | 0, _, h, v => evaluates_round_one (by simpa using h)
  | m + 1, count, h, v => by
    have hnext : Evaluates (.binary "-" count (int 1)) (int ((m : Int) + 1)) := by
      have := evaluates_pred h
      rwa [show ((m + 1 : Nat) : Int) + 1 - 1 = (m : Int) + 1 by omega] at this
    calc Evaluates (round op f (fixTerm (rounds id n op f)) count) v
        ↔ Evaluates (.binary op f (.binary "$" (fixTerm (rounds id n op f))
            (.binary "-" count (int 1)))) v := evaluates_round_more h (by omega)
      _ ↔ Evaluates (.binary op f (round op f (fixTerm (rounds id n op f))
            (.binary "-" count (int 1)))) v :=
          evaluates_binary_congr hop fun _ => evaluates_self_app hf hfc hid
      _ ↔ Evaluates (nest op f (m + 1)) v :=
          evaluates_binary_congr hop fun w => evaluates_round hop hf hfc hid m hnext w

/-- Where the count hides the loop variable, a round with more to do applies the count, a
number, and gives nothing. -/
theorem not_evaluates_round_clash (hop : op ≠ "$") {c : Int} (hc : 1 < c) :
    ¬Evaluates (round op f (int c) (int c)) v := by
  rw [evaluates_round_more (evaluates_lit _ _) (by omega), evaluates_binary_iff hop]
  rintro ⟨l, r, lv, rv, -, hr, -⟩
  obtain ⟨x, b, u, hnum, -⟩ := evaluates_app_iff.1 hr
  cases hnum.unique (evaluates_lit _ _)

/-- **The loop term.** With an operator other than application and a closed `f` without raw
nodes, the loop of `n ≥ 1` rounds evaluates as `n` copies of `f` combined by `op`, unless the
count variable hides the loop variable; then, from two rounds on, it gives nothing. -/
theorem evaluates_loopTerm_nest (hop : op ≠ "$") (hf : f.WellKinded) (hfc : f.Closed)
    (hn : 1 ≤ n) :
    ((id ≠ n ∨ n = 1) → ∀ v, Evaluates (loopTerm id n op f) v ↔
      Evaluates (nest op f (n - 1).toNat) v) ∧
    (id = n → 1 < n → ∀ v, ¬Evaluates (loopTerm id n op f) v) := by
  refine ⟨fun hcase v => ?_, fun hid hn₂ v => ?_⟩
  · rw [evaluates_loopTerm hf hfc]
    rcases hcase with hid | rfl
    · -- the count starts at `n`, that is `(n - 1).toNat + 1`
      have hcount : Evaluates (int n) (int (((n - 1).toNat : Nat) + 1)) := by
        rw [show (((n - 1).toNat : Nat) : Int) + 1 = n by omega]
        exact evaluates_lit _ _
      rw [if_neg hid]
      exact evaluates_round hop hf hfc hid _ hcount v
    · exact evaluates_round_one (evaluates_lit _ _)
  · rw [evaluates_loopTerm hf hfc, if_pos hid]
    exact not_evaluates_round_clash hop hn₂

end Rounds

/-! ### Loops built by `Builder.loop` -/

section Built

/-- `m + 1` copies of the string `s` concatenated give `s` repeated `m + 1` times. -/
theorem evaluates_nest_concat (s : String) :
    ∀ m : Nat, Evaluates (nest "." (str s) m) (str (String.join (List.replicate (m + 1) s)))
  | 0 => by simpa [nest] using evaluates_lit .string (.str s)
  | m + 1 => by
    refine Evaluates.binary (by decide) (evaluates_lit _ _) (evaluates_nest_concat s m) rfl rfl ?_
    simp [applyBinary, isKind, typeName?, Value.add, List.replicate_succ, String.join_cons]

theorem repeatLetter_eq (s : String) (n : Int) :
    Builder.repeatLetter (.str s) (.int n) =
      Builder.loop (.int 3) (.int n) (.obj [("type", .str "string"), ("value", .str s)])
        (fun a b => .ok (Builder.binop "." a b)) := rfl

/-- `repeatLetter s n` spells `s` `n` times, except for `n = 3`, where its count variable hides
its loop variable `3` and it gives nothing. -/
theorem evaluates_repeatLetter (s : String) {n : Nat} (hn : 1 ≤ n) :
    ∃ d, Builder.repeatLetter (.str s) (.int n) = .ok d ∧
      (n ≠ 3 → Evaluates (ofDoc d) (str (String.join (List.replicate n s)))) ∧
      (n = 3 → ∀ v, ¬Evaluates (ofDoc d) v) := by
  obtain ⟨d, hd, hofd⟩ := map_eq_ok.1
    (ofDoc_loop 3 n "." (.obj [("type", .str "string"), ("value", .str s)]))
  rw [ofDoc_string] at hofd
  obtain ⟨hagree, hclash⟩ :=
    @evaluates_loopTerm_nest "." (str s) 3 n (by decide) ⟨s, rfl⟩ rfl (by omega)
  refine ⟨d, by rw [repeatLetter_eq, hd], fun h₃ => ?_, fun h₃ => ?_⟩
  · have hcopies : ((n : Int) - 1).toNat + 1 = n := by omega
    have h := (hagree (.inl (by omega)) _).2 (evaluates_nest_concat s _)
    rwa [hcopies, ← hofd] at h
  · rw [hofd]
    exact hclash (by omega) (by omega)

end Built

/-- **Counted loops.** A loop built by `Builder.loop` from a binary operator `op` other than
application and a closed `f` without raw nodes, over `n ≥ 1` rounds, gives exactly what `n`
copies of `f` combined by `op` to the right give, once the depth limit is set aside, when the
loop variable `id` is not the count `n` or the loop has one round. When `id = n` and `n ≥ 2`,
it gives no value at all. -/
theorem loop_evaluates_as_nest (id n : Int) (f : Doc) (op : String) (hop : op ≠ "$")
    (hk : (ofDoc f).WellKinded) (hc : (ofDoc f).Closed) (hn : 1 ≤ n) :
    ∃ d, Builder.loop (.int id) (.int n) f (fun a b => .ok (Builder.binop op a b)) = .ok d ∧
      ((id ≠ n ∨ n = 1) → ∀ v, Evaluates (ofDoc d) v ↔
        Evaluates (nest op (ofDoc f) (n - 1).toNat) v) ∧
      (id = n → 1 < n → ∀ v, ¬Evaluates (ofDoc d) v) := by
  obtain ⟨d, hd, hofd⟩ := map_eq_ok.1 (ofDoc_loop id n op f)
  refine ⟨d, hd, ?_⟩
  rw [hofd]
  exact evaluates_loopTerm_nest hop hk hc hn

/-- Two rounds of `S x` concatenated give `xx`. -/
theorem loop_two_rounds :
    ∃ d, Builder.loop (.int 4) (.int 2) (.obj [("type", .str "string"), ("value", .str "x")])
      (fun a b => .ok (Builder.binop "." a b)) = .ok d ∧ Evaluates (ofDoc d) (str "xx") := by
  obtain ⟨d, hd, hagree, -⟩ := loop_evaluates_as_nest 4 2
    (.obj [("type", .str "string"), ("value", .str "x")]) "." (by decide)
    (by simp [WellKinded]) (by simp) (by decide)
  refine ⟨d, hd, (hagree (.inl (by decide)) _).2 ⟨2, ?_⟩⟩
  simp only [ofDoc_string]
  rfl

/-- `repeatLetter "a" 3`: the count variable `3` hides the loop variable `3`, so the second
round applies the number `3`; three copies of `a` concatenated give `aaa`. -/
theorem repeat_letter_three_fails :
    ∃ d, Builder.repeatLetter (.str "a") (.int 3) = .ok d ∧
      reduce (ofDoc d) = .error (.notLambda (int 3)) ∧
      reduce (nest "." (str "a") 2) = .ok (str "aaa") := by
  obtain ⟨d, hd, hofd⟩ := map_eq_ok.1 (ofDoc_loop 3 3 "." (.obj [("type", .str "string"),
    ("value", .str "a")]))
  refine ⟨d, by rw [repeatLetter_eq, hd], ?_, rfl⟩
  rw [hofd, ofDoc_string]
  rfl

end Term

end Interstellar
