import Interstellar.Target.Eval
import Interstellar.Proofs.Scope

/-!
# Closing substitution and the bindings of compiled code

Compiled code looks variables up in bindings of thunks, while the interpreter substitutes
terms for variables. This module reads bindings back as a substitution, so that the two can be
compared:

* `Term.substAll σ t` puts the terms of `σ` for the variables of `t` that no abstraction over
  them encloses, all at once and renaming nothing;
* `substAll_cons`: with closed terms in `σ`, one more binding in front is a substitution by
  name after the others, the step an application takes;
* `subst_eq_substAll`: on a term without raw nodes, substitution by name is this closing
  substitution for one variable, and never fails;
* `Thunk.close` and `Env.close`: the closed term a thunk stands for, its term with its own
  bindings read back; `Env.lookup_close` says that looking a variable up commutes with
  reading back;
* `Thunk.Good`: a thunk whose read-back is closed, and so are those of its bindings;
  `Env.Good.cons` keeps bindings good when an application binds its argument.
-/

namespace Interstellar

namespace Term

/-- Simultaneous substitution by name: each variable of `σ`'s domain that no abstraction over
it encloses is replaced by its first entry in `σ`. Nothing is renamed. -/
def substAll (σ : List (Int × Term)) : Term → Term
  | .var x => (σ.lookup x).getD (.var x)
  | .unary op a => .unary op (a.substAll σ)
  | .binary op a b => .binary op (a.substAll σ) (b.substAll σ)
  | .lam x b => .lam x (b.substAll (σ.filter (·.1 != x)))
  | .cond c t e => .cond (c.substAll σ) (t.substAll σ) (e.substAll σ)
  | .lit k v => .lit k v
  | .raw d => .raw d

section SubstAll

variable {σ : List (Int × Term)}

theorem lookup_eq_none {x : Int} : σ.lookup x = none ↔ x ∉ σ.map Prod.fst := by
  rw [List.lookup_eq_none_iff]
  simp only [List.mem_map, not_exists, not_and, bne_iff_ne, ne_eq]
  constructor
  · rintro h ⟨y, u⟩ hp rfl
    exact h _ hp rfl
  · intro h p hp hx
    exact h p hp hx.symm

@[simp] theorem mem_keys_filter {x z : Int} :
    z ∈ (σ.filter (·.1 != x)).map Prod.fst ↔ z ∈ σ.map Prod.fst ∧ z ≠ x := by
  simp only [List.mem_map, List.mem_filter, bne_iff_ne, ne_eq]
  constructor
  · rintro ⟨p, ⟨hp, hx⟩, rfl⟩
    exact ⟨⟨p, hp, rfl⟩, hx⟩
  · rintro ⟨⟨p, hp, rfl⟩, hx⟩
    exact ⟨p, ⟨hp, hx⟩, rfl⟩

theorem lookup_filter {x y : Int} (h : x ≠ y) :
    (σ.filter (·.1 != y)).lookup x = σ.lookup x := by
  induction σ with
  | nil => rfl
  | cons p σ ih =>
    obtain ⟨z, u⟩ := p
    by_cases hz : z = y
    · subst hz
      have hxz : (x == z) = false := beq_eq_false_iff_ne.2 h
      simp [List.lookup_cons, hxz, ih]
    · simp only [List.filter_cons, bne_iff_ne, ne_eq, hz, not_false_eq_true, if_true,
        List.lookup_cons, ih]

theorem lookup_filter_self {x : Int} : (σ.filter (·.1 != x)).lookup x = none := by
  rw [lookup_eq_none]
  simp

theorem mem_of_lookup {x : Int} {u : Term} (h : σ.lookup x = some u) : (x, u) ∈ σ := by
  obtain ⟨l₁, l₂, rfl, -⟩ := List.lookup_eq_some_iff.1 h
  simp

@[simp] theorem substAll_nil (t : Term) : t.substAll [] = t := by
  induction t <;> simp_all [substAll, List.lookup_nil]

/-- Substitution changes nothing where none of its variables is free. -/
theorem substAll_eq_self {t : Term} (h : ∀ z ∈ t.fv, z ∉ σ.map Prod.fst) : t.substAll σ = t := by
  induction t generalizing σ with
  | var x =>
    have : σ.lookup x = none := lookup_eq_none.2 (h x (by simp [fv]))
    simp [substAll, this]
  | lam x b ih =>
    simp only [substAll, lam.injEq, true_and]
    apply ih
    intro z hz hmem
    rw [mem_keys_filter] at hmem
    exact h z (mem_fv_lam.2 ⟨hz, hmem.2⟩) hmem.1
  | unary op a ih => simp only [substAll, ih (fun z hz => h z hz)]
  | binary op a b iha ihb =>
    simp only [fv, List.mem_append] at h
    simp only [substAll, iha (fun z hz => h z (.inl hz)), ihb (fun z hz => h z (.inr hz))]
  | cond c t e ihc iht ihe =>
    simp only [fv, List.mem_append] at h
    simp only [substAll, ihc (fun z hz => h z (.inl (.inl hz))),
      iht (fun z hz => h z (.inl (.inr hz))), ihe (fun z hz => h z (.inr hz))]
  | lit k v => rfl
  | raw d => rfl

/-- One more closed binding in front is a substitution by name after the others. -/
theorem substAll_cons (hσ : ∀ p ∈ σ, p.2.Closed) (x : Int) (s t : Term) :
    t.substAll ((x, s) :: σ) = (t.substAll (σ.filter (·.1 != x))).substAll [(x, s)] := by
  induction t generalizing σ with
  | var y =>
    by_cases hy : y = x
    · subst hy
      simp [substAll, lookup_filter_self]
    · have hyx : (y == x) = false := beq_eq_false_iff_ne.2 hy
      cases hl : σ.lookup y with
      | none => simp [substAll, List.lookup_cons, hyx, lookup_filter hy, hl]
      | some u =>
        have hu : u.substAll [(x, s)] = u :=
          substAll_eq_self (by simp [show u.fv = [] from hσ _ (mem_of_lookup hl)])
        simp [substAll, List.lookup_cons, hyx, lookup_filter hy, hl, hu]
  | lam y b ih =>
    by_cases hy : y = x
    · subst hy
      simp [substAll, List.filter_filter]
    · have hσ' : ∀ p ∈ σ.filter (·.1 != y), p.2.Closed :=
        fun p hp => hσ p (List.mem_filter.1 hp).1
      have hyx : (x != y) = true := bne_iff_ne.2 (Ne.symm hy)
      simp only [substAll, List.filter_cons, hyx, if_true, ih hσ', List.filter_filter,
        Bool.and_comm, List.filter_nil]
  | unary op a ih => simp only [substAll, ih hσ]
  | binary op a b iha ihb => simp only [substAll, iha hσ, ihb hσ]
  | cond c t e ihc iht ihe => simp only [substAll, ihc hσ, iht hσ, ihe hσ]
  | lit k v => rfl
  | raw d => rfl

end SubstAll

/-- On a term without raw nodes, substitution by name of one variable never fails. -/
theorem subst_eq_substAll {t : Term} (ht : t.WellKinded) (x : Int) (u : Term) :
    t.subst x u = .ok (t.substAll [(x, u)]) := by
  induction t with
  | var y =>
    by_cases hy : y = x
    · simp [subst, substAll, hy]
    · simp [subst, substAll, hy, List.lookup_cons, beq_eq_false_iff_ne.2 hy]
  | lam y b ih =>
    by_cases hy : y = x
    · subst hy
      simp [subst, substAll]
    · simp [subst, substAll, hy, Ne.symm hy, ih ht]
  | unary op a ih => simp [subst, substAll, ih ht]
  | binary op a b iha ihb => simp [subst, substAll, iha ht.1, ihb ht.2]
  | cond c t e ihc iht ihe => simp [subst, substAll, ihc ht.1, iht ht.2.1, ihe ht.2.2]
  | lit k v => rfl
  | raw d => exact ht.elim

end Term

mutual

/-- The closed term a thunk stands for: its term with every bound variable replaced by the
term of its thunk. -/
def Thunk.close : Thunk → Term
  | .mk t env => t.substAll (Env.close env)

/-- The terms of an environment's thunks. -/
def Env.close : Env → List (Int × Term)
  | [] => []
  | (x, th) :: rest => (x, th.close) :: Env.close rest

end

@[simp] theorem Thunk.close_mk (t : Term) (env : Env) :
    Thunk.close (.mk t env) = t.substAll (Env.close env) := by
  rw [Thunk.close]

@[simp] theorem Env.close_nil : Env.close [] = [] := by
  rw [Env.close]

@[simp] theorem Env.close_cons (x : Int) (th : Thunk) (env : Env) :
    Env.close ((x, th) :: env) = (x, th.close) :: Env.close env := by
  rw [Env.close]

theorem Env.lookup_close (env : Env) (x : Int) :
    (Env.close env).lookup x = (env.find? x).map Thunk.close := by
  induction env with
  | nil => rfl
  | cons p env ih =>
    obtain ⟨y, th⟩ := p
    by_cases h : x = y
    · subst h
      simp [Env.find?]
    · have h₁ : (x == y) = false := beq_eq_false_iff_ne.2 h
      have h₂ : (y == x) = false := beq_eq_false_iff_ne.2 (Ne.symm h)
      simp only [Env.close_cons, List.lookup_cons, h₁, ih]
      simp [Env.find?, h₂]

/-- A good thunk: it stands for a closed term, and so do the thunks of its environment. -/
inductive Thunk.Good : Thunk → Prop
  | mk {t : Term} {env : Env} : (Thunk.close (.mk t env)).Closed → (∀ p ∈ env, p.2.Good) →
      Thunk.Good (.mk t env)

/-- An environment of good thunks. -/
def Env.Good (env : Env) : Prop := ∀ p ∈ env, p.2.Good

theorem Thunk.Good.closed {th : Thunk} (h : th.Good) : th.close.Closed := by
  cases h with
  | mk hc _ => exact hc

theorem Thunk.Good.env_good {t : Term} {env : Env} (h : Thunk.Good (.mk t env)) :
    Env.Good env := by
  cases h with
  | mk _ he => exact he

/-- Binding a good thunk in front of good bindings, as an application does. -/
theorem Env.Good.cons {env : Env} (x : Int) {th : Thunk} (hth : th.Good) (henv : Env.Good env) :
    Env.Good ((x, th) :: env) := by
  intro p hp
  rcases List.mem_cons.1 hp with rfl | hp
  · exact hth
  · exact henv p hp

theorem Env.closed_close {env : Env} (h : env.Good) : ∀ p ∈ Env.close env, p.2.Closed := by
  induction env with
  | nil => simp
  | cons q env ih =>
    obtain ⟨y, th⟩ := q
    simp only [Env.close_cons, List.mem_cons, forall_eq_or_imp]
    exact ⟨(h (y, th) List.mem_cons_self).closed, ih fun p hp => h p (List.mem_cons_of_mem _ hp)⟩

/-- Each lookup enters a smaller environment. -/
theorem Env.sizeOf_lt_of_find? {env env' : Env} {x : Int} {u : Term}
    (h : env.find? x = some (.mk u env')) : sizeOf env' < sizeOf env := by
  obtain ⟨p, hp, hpx⟩ := Option.map_eq_some_iff.1 h
  have hmem : p ∈ env := List.mem_of_find?_eq_some hp
  obtain ⟨y, th⟩ := p
  cases hpx
  have := List.sizeOf_lt_of_mem hmem
  simp only [Prod.mk.sizeOf_spec, Thunk.mk.sizeOf_spec] at this
  omega

theorem Env.exists_mem_of_find? {env : Env} {x : Int} {th : Thunk} (h : env.find? x = some th) :
    ∃ y, (y, th) ∈ env := by
  obtain ⟨⟨y, th'⟩, hp, rfl⟩ := Option.map_eq_some_iff.1 h
  exact ⟨y, List.mem_of_find?_eq_some hp⟩

end Interstellar
