import Interstellar.Proofs.Reduce

/-!
# Closed terms and substitution

The interpreter substitutes by name (`Term.subst`): it renames no abstraction, so a free
variable of the argument can be captured, as in `B$ L" L# v" v#`, which gives `L# v#`.
It is right on programs all the same, because evaluating a closed term only ever substitutes
closed arguments into the bodies of closed abstractions, and there no capture can happen.

* `Term.fv`, `Term.Closed`: free variables, and terms without any;
* `Term.substCA`: capture-avoiding substitution, renaming an abstraction to a fresh number
  where it would capture;
* `Term.substCA_eq_subst`: with a closed argument the two substitutions agree;
* `Term.closed_subst`: substituting a closed argument into the body of a closed abstraction
  gives a closed term;
* `Term.reduceN_closed`: a closed term evaluates to a closed literal or abstraction;
* `Term.reduceN_eq_reduceWith_substCA`: on closed terms the interpreter is the evaluator with
  capture-avoiding substitution.
-/

namespace Interstellar

namespace Term

/-- The free variables of a term, in order and with repetitions. A raw node has none:
substitution never looks inside one. -/
def fv : Term → List Int
  | .var x => [x]
  | .unary _ a => a.fv
  | .binary _ a b => a.fv ++ b.fv
  | .lam x b => b.fv.filter (· != x)
  | .cond c t e => c.fv ++ t.fv ++ e.fv
  | .lit .. | .raw _ => []

/-- A closed term: every variable lies under an abstraction over its number. -/
def Closed (t : Term) : Prop := t.fv = []

instance : DecidablePred Closed := fun t => inferInstanceAs (Decidable (t.fv = []))

@[simp] theorem mem_fv_lam {z x : Int} {b : Term} : z ∈ (lam x b).fv ↔ z ∈ b.fv ∧ z ≠ x := by
  simp [fv]

theorem closed_iff {t : Term} : t.Closed ↔ ∀ z, z ∉ t.fv := List.eq_nil_iff_forall_not_mem

@[simp] theorem closed_lit (k : Kind) (s : Scalar) : (lit k s).Closed := rfl

@[simp] theorem closed_raw (d : Doc) : (raw d).Closed := rfl

@[simp] theorem not_closed_var (x : Int) : ¬(var x).Closed := by simp [Closed, fv]

@[simp] theorem closed_unary {op : String} {a : Term} : (unary op a).Closed ↔ a.Closed := Iff.rfl

@[simp] theorem closed_binary {op : String} {a b : Term} :
    (binary op a b).Closed ↔ a.Closed ∧ b.Closed := by
  simp [Closed, fv]

@[simp] theorem closed_cond {c t e : Term} :
    (cond c t e).Closed ↔ c.Closed ∧ t.Closed ∧ e.Closed := by
  simp [Closed, fv]

/-- Every number that occurs in a term, bound or free. -/
def names : Term → List Int
  | .var x => [x]
  | .unary _ a => a.names
  | .binary _ a b => a.names ++ b.names
  | .lam x b => x :: b.names
  | .cond c t e => c.names ++ t.names ++ e.names
  | .lit .. | .raw _ => []

/-- A number above every number of `avoid`. -/
def fresh (avoid : List Int) : Int := avoid.foldr max 0 + 1

/-- The number of nodes of a term. -/
def size : Term → Nat
  | .unary _ a | .lam _ a => a.size + 1
  | .binary _ a b => a.size + b.size + 1
  | .cond c t e => c.size + t.size + e.size + 1
  | .lit .. | .var _ | .raw _ => 1

/-- `t` with the variable `y` renamed to `z` wherever no abstraction over `y` encloses it. -/
def rename (y z : Int) : Term → Term
  | .var x => .var (if x = y then z else x)
  | .unary op a => .unary op (a.rename y z)
  | .binary op a b => .binary op (a.rename y z) (b.rename y z)
  | .cond c t e => .cond (c.rename y z) (t.rename y z) (e.rename y z)
  | .lam x b => .lam x (if x = y then b else b.rename y z)
  | .lit k v => .lit k v
  | .raw d => .raw d

@[simp] theorem size_rename (y z : Int) (t : Term) : (t.rename y z).size = t.size := by
  induction t with
  | lam x b ih => by_cases h : x = y <;> simp [rename, size, h, ih]
  | _ => simp_all [rename, size]

/-- Capture-avoiding substitution: `t` with `u` in place of every free occurrence of `x`. An
abstraction over a free variable of `u` that has `x` free inside is first renamed to a number
that occurs nowhere in it, in `u` or as `x`. Raw nodes are passed over or refused as
`subst` does. -/
def substCA (t : Term) (x : Int) (u : Term) : Except Fault Term :=
  match t with
  | .var y => .ok (if y = x then u else .var y)
  | .unary op a => do .ok (.unary op (← a.substCA x u))
  | .binary op a b => do
    let a' ← a.substCA x u
    let b' ← b.substCA x u
    .ok (.binary op a' b')
  | .cond c t e => do
    let c' ← c.substCA x u
    let t' ← t.substCA x u
    let e' ← e.substCA x u
    .ok (.cond c' t' e')
  | .lam y b =>
    if y = x then .ok (.lam y b)
    else if y ∈ u.fv ∧ x ∈ b.fv then
      let z := fresh (x :: u.fv ++ b.names)
      do .ok (.lam z (← (b.rename y z).substCA x u))
    else do .ok (.lam y (← b.substCA x u))
  | .lit k v => .ok (.lit k v)
  | .raw d => if d.substInert then .ok (.raw d) else .error d.nodeFault
termination_by t.size
decreasing_by all_goals simp only [size, size_rename]; omega

/-- With a closed argument no abstraction can capture, so capture-avoiding substitution is
substitution by name. -/
theorem substCA_eq_subst {u : Term} (hu : u.Closed) (x : Int) (t : Term) :
    t.substCA x u = t.subst x u := by
  induction t with
  | lam y b ih =>
    have hy : y ∉ u.fv := by rw [show u.fv = [] from hu]; simp
    rw [substCA, subst]
    by_cases hyx : y = x
    · simp [hyx]
    · simp [hyx, hy, ih]
  | var y => rw [substCA, subst]
  | unary op a ih => rw [substCA, subst, ih]
  | binary op a b iha ihb => rw [substCA, subst, iha, ihb]
  | cond c t e ihc iht ihe => rw [substCA, subst, ihc, iht, ihe]
  | lit k v => rw [substCA, subst]
  | raw d => rw [substCA, subst]

/-- Every free variable of the result of substitution by name is free in the term and not the
substituted variable, or free in the argument. -/
theorem fv_subst {t u t' : Term} {x : Int} (h : t.subst x u = .ok t') :
    ∀ z ∈ t'.fv, (z ∈ t.fv ∧ z ≠ x) ∨ z ∈ u.fv := by
  induction t generalizing t' with
  | var y =>
    simp only [subst, Except.ok.injEq] at h
    subst h
    by_cases hy : y = x
    · simp only [hy, if_true]
      exact fun z hz => .inr hz
    · simp [hy, fv]
  | unary op a ih =>
    obtain ⟨a', ha, he⟩ := bind_eq_ok.1 h
    cases he
    simpa [fv] using ih ha
  | binary op a b iha ihb =>
    obtain ⟨a', ha, h⟩ := bind_eq_ok.1 h
    obtain ⟨b', hb, he⟩ := bind_eq_ok.1 h
    cases he
    intro z hz
    rcases List.mem_append.1 hz with hz | hz
    · rcases iha ha z hz with ⟨h1, h2⟩ | h1
      · exact .inl ⟨List.mem_append_left _ h1, h2⟩
      · exact .inr h1
    · rcases ihb hb z hz with ⟨h1, h2⟩ | h1
      · exact .inl ⟨List.mem_append_right _ h1, h2⟩
      · exact .inr h1
  | cond c t e ihc iht ihe =>
    obtain ⟨c', hc, h⟩ := bind_eq_ok.1 h
    obtain ⟨t', ht, h⟩ := bind_eq_ok.1 h
    obtain ⟨e', he, h⟩ := bind_eq_ok.1 h
    cases h
    intro z hz
    simp only [fv, List.mem_append] at hz ⊢
    rcases hz with (hz | hz) | hz
    · rcases ihc hc z hz with ⟨h1, h2⟩ | h1
      · exact .inl ⟨.inl (.inl h1), h2⟩
      · exact .inr h1
    · rcases iht ht z hz with ⟨h1, h2⟩ | h1
      · exact .inl ⟨.inl (.inr h1), h2⟩
      · exact .inr h1
    · rcases ihe he z hz with ⟨h1, h2⟩ | h1
      · exact .inl ⟨.inr h1, h2⟩
      · exact .inr h1
  | lam y b ih =>
    simp only [subst] at h
    split at h
    · cases h
      rename_i hyx
      intro z hz
      exact .inl ⟨hz, by rw [mem_fv_lam] at hz; exact hyx ▸ hz.2⟩
    · obtain ⟨b', hb, he⟩ := bind_eq_ok.1 h
      cases he
      intro z hz
      rw [mem_fv_lam] at hz
      rcases ih hb z hz.1 with ⟨h1, h2⟩ | h1
      · exact .inl ⟨mem_fv_lam.2 ⟨h1, hz.2⟩, h2⟩
      · exact .inr h1
  | lit k v =>
    cases h
    simp [fv]
  | raw d =>
    simp only [subst] at h
    split at h
    · cases h; simp [fv]
    · cases h

/-- Substitution by name of a closed argument into the body of a closed abstraction gives a
closed term. -/
theorem closed_subst {x : Int} {b u t' : Term} (hb : (lam x b).Closed) (hu : u.Closed)
    (h : b.subst x u = .ok t') : t'.Closed := by
  rw [closed_iff] at hb hu ⊢
  intro z hz
  rcases fv_subst h z hz with ⟨h1, h2⟩ | h1
  · exact hb z (mem_fv_lam.2 ⟨h1, h2⟩)
  · exact hu z h1

/-- A node that evaluation gives back as a result: a literal, an abstraction, or a raw node
that declares a literal type. A variable evaluates to itself too, but only when it is free. -/
def IsValue : Term → Prop
  | .lit .. | .lam .. => True
  | .raw d => d.isValueNode
  | _ => False

theorem map_lit_eq_ok {k : Kind} {e : Except Fault Scalar} {v : Term}
    (h : (Term.lit k <$> e) = .ok v) : ∃ s, e = .ok s ∧ v = .lit k s := by
  cases e with
  | error f => cases h
  | ok s => cases h; exact ⟨s, rfl, rfl⟩

theorem eq_lit_of_map {k : Kind} {e : Except Fault Scalar} {v : Term}
    (h : (Term.lit k <$> e) = .ok v) : ∃ s, v = .lit k s :=
  (map_lit_eq_ok h).imp fun _ => And.right

/-- A unary operator gives a literal. -/
theorem applyUnary_eq_lit {op : String} {s : Scalar} {v : Term} (h : applyUnary op s = .ok v) :
    ∃ k s', v = .lit k s' := by
  unfold applyUnary at h
  split at h
  · exact ⟨_, eq_lit_of_map h⟩
  · cases h; exact ⟨_, _, rfl⟩
  · exact ⟨_, eq_lit_of_map h⟩
  · exact ⟨_, eq_lit_of_map h⟩
  · cases h

theorem arith_eq_lit {want : Kind} {f : Scalar → Scalar → Except Fault Scalar} {l r : Term}
    {lv rv : Scalar} {v : Term} (h : arith want f l r lv rv = .ok v) : ∃ s, v = .lit want s := by
  unfold arith at h
  split at h
  · exact eq_lit_of_map h
  · cases h

/-- A binary operator other than application gives a literal. -/
theorem applyBinary_eq_lit {op : String} {l r : Term} {lv rv : Scalar} {v : Term}
    (h : applyBinary op l r lv rv = .ok v) : ∃ k s, v = .lit k s := by
  unfold applyBinary at h
  split at h
  case h_1 | h_2 | h_3 | h_4 | h_5 | h_6 | h_7 => exact ⟨_, arith_eq_lit h⟩
  case h_8 | h_9 | h_10 =>
    split at h
    · cases h; exact ⟨_, _, rfl⟩
    · cases h
  case h_11 =>
    split at h
    · exact ⟨_, eq_lit_of_map h⟩
    · cases h
  case h_12 | h_13 =>
    split at h
    · cases h
    · split at h
      · cases h
      · exact ⟨_, eq_lit_of_map h⟩
  case h_14 => cases h

/-- Evaluating a closed term gives a closed literal or abstraction: never a variable, and never
a node that still has to be evaluated. -/
theorem reduceN_closed {n : Nat} {t v : Term} (ht : t.Closed) (h : reduceN n t = .ok v) :
    v.Closed ∧ v.IsValue := by
  induction n generalizing t v with
  | zero => simp at h
  | succ n ih =>
    cases t with
    | lit k s => cases h; exact ⟨ht, trivial⟩
    | lam x b => cases h; exact ⟨ht, trivial⟩
    | var x => exact absurd ht (not_closed_var x)
    | raw d =>
      obtain ⟨hd, rfl⟩ := reduceN_raw_eq_ok.1 h
      exact ⟨ht, hd⟩
    | unary op a =>
      obtain ⟨_, _, _, _, h⟩ := reduceN_unary_eq_ok.1 h
      obtain ⟨k, s', rfl⟩ := applyUnary_eq_lit h
      exact ⟨closed_lit k s', trivial⟩
    | binary op a b =>
      rw [closed_binary] at ht
      by_cases hop : op = "$"
      · subst hop
        -- the argument is substituted unevaluated into the body of a closed abstraction
        obtain ⟨x, body, u, hf, hu, h⟩ := reduceN_app_eq_ok.1 h
        exact ih (closed_subst (ih ht.1 hf).1 ht.2 hu) h
      · obtain ⟨_, _, _, _, _, _, _, _, h⟩ := (reduceN_binary_eq_ok hop).1 h
        obtain ⟨k, s, rfl⟩ := applyBinary_eq_lit h
        exact ⟨closed_lit k s, trivial⟩
    | cond c t e =>
      rw [closed_cond] at ht
      obtain ⟨_, _, _, _, h⟩ := reduceN_cond_eq_ok.1 h
      exact ih (by split <;> simp [ht]) h

/-- On closed terms the evaluator with capture-avoiding substitution is the evaluator with
substitution by name: every argument it substitutes is closed. -/
theorem reduceWith_substCA {n : Nat} {t : Term} (ht : t.Closed) :
    reduceWith substCA n t = reduceWith subst n t := by
  induction n generalizing t with
  | zero => rfl
  | succ n ih =>
    cases t with
    | unary op a => simp only [reduceWith, ih (closed_unary.1 ht)]
    | binary op a b =>
      rw [closed_binary] at ht
      by_cases hop : op = "$"
      · subst hop
        simp only [reduceWith, ih ht.1]
        cases hf : reduceWith subst n a with
        | error e => rfl
        | ok g =>
          cases g with
          | lam x body =>
            have hc : (lam x body).Closed :=
              (reduceN_closed ht.1 ((reduceN_eq_reduceWith n a).trans hf)).1
            simp only [ok_bind, substCA_eq_subst ht.2]
            cases hu : body.subst x b with
            | error e => rfl
            | ok u => exact ih (closed_subst hc ht.2 hu)
          | _ => rfl
      · simp only [reduceWith, ih ht.1, ih ht.2]
    | cond c t e =>
      rw [closed_cond] at ht
      simp only [reduceWith, ih ht.1, ih ht.2.1, ih ht.2.2]
    | _ => rfl

/-- **Substitution by name is safe on closed programs.** On every closed term and with any
fuel, the interpreter gives exactly what the same evaluator with capture-avoiding
substitution gives, the same node or the same fault, and every node it gives is a closed
literal or abstraction. -/
theorem reduceN_eq_reduceWith_substCA {t : Term} (ht : t.Closed) (n : Nat) :
    reduceN n t = reduceWith substCA n t ∧ ∀ v, reduceN n t = .ok v → v.Closed ∧ v.IsValue :=
  ⟨(reduceN_eq_reduceWith n t).trans (reduceWith_substCA ht).symm,
    fun _ h => reduceN_closed ht h⟩

/-- The shadowing program `B$ L" B* B$ L" B+ v" v" v" v" I$`, which gives `18`. -/
theorem reduce_shadowing_eq_reduceWith_substCA :
    (binary "$" (lam 1 (binary "*" (binary "$" (lam 1 (binary "+" (var 1) (var 1))) (var 1))
      (var 1))) (int 3)).Closed ∧
    (reduceN depthLimit (binary "$" (lam 1 (binary "*" (binary "$" (lam 1 (binary "+" (var 1)
      (var 1))) (var 1)) (var 1))) (int 3)) =
      reduceWith substCA depthLimit (binary "$" (lam 1 (binary "*" (binary "$" (lam 1
        (binary "+" (var 1) (var 1))) (var 1)) (var 1))) (int 3)) ∧
    ∀ v, reduceN depthLimit (binary "$" (lam 1 (binary "*" (binary "$" (lam 1 (binary "+" (var 1)
      (var 1))) (var 1)) (var 1))) (int 3)) = .ok v → v.Closed ∧ v.IsValue) :=
  ⟨by decide, reduceN_eq_reduceWith_substCA (by decide) depthLimit⟩

end Term

end Interstellar
