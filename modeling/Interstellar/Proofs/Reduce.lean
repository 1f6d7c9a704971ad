import Interstellar.Term.Reduce
import Interstellar.Proofs.Text

/-!
# Steps of the interpreter

What `Term.reduceN` does with each kind of node, stated once so that later proofs never unfold
it, and the fact that more fuel keeps a finished evaluation.

* `Term.reduceWith`: the same evaluator with the substitution as a parameter;
* `Term.reduceN_eq_reduceWith`: the interpreter is that evaluator at substitution by name;
* `Term.reduceN_unary_eq_ok`, `Term.reduceN_app_eq_ok`, `Term.reduceN_binary_eq_ok`,
  `Term.reduceN_cond_eq_ok`: what a successful evaluation of each node consists of;
* `Term.reduceN_mono`: more fuel keeps a finished evaluation.
-/

namespace Interstellar

namespace Term

/-- Call-by-name evaluation as `reduceN` does it, with `sub` in place of substitution by
name: `sub b x a` puts the argument `a` for the variable `x` in the body `b`. -/
def reduceWith (sub : Term → Int → Term → Except Fault Term) : Nat → Term → Except Fault Term
  | 0, _ => .error .tooDeep
  | n + 1, t =>
    match t with
    | .lit .. | .lam .. | .var _ => .ok t
    | .raw d => if d.isValueNode then .ok t else .error d.nodeFault
    | .unary op a => do
      let v ← reduceWith sub n a
      applyUnary op (← v.payload)
    | .binary "$" f a => do
      match ← reduceWith sub n f with
      | .lam x b => reduceWith sub n (← sub b x a)
      | .raw d =>
        match d.get? "type" with
        | some (.str "lambda") => .error d.nodeFault
        | _ => .error (.notLambda (.raw d))
      | g => .error (.notLambda g)
    | .binary op a b => do
      let l ← reduceWith sub n a
      let r ← reduceWith sub n b
      let lv ← l.payload
      let rv ← r.payload
      applyBinary op l r lv rv
    | .cond c t e => do
      let v ← reduceWith sub n c
      if (← v.payload).truthy then reduceWith sub n t else reduceWith sub n e

/-- The fault of applying a raw node: one typed as an abstraction is read for its variable and
body, and any other is not an abstraction. -/
def rawHeadFault (d : Doc) : Fault :=
  match d.get? "type" with
  | some (.str "lambda") => d.nodeFault
  | _ => .notLambda (.raw d)

theorem reduceN_app_raw {n : Nat} {f a : Term} {d : Doc} (hf : reduceN n f = .ok (.raw d)) :
    reduceN (n + 1) (.binary "$" f a) = .error (rawHeadFault d) := by
  simp only [reduceN, hf, ok_bind, rawHeadFault]
  split <;> simp_all

theorem reduceWith_app_raw {sub : Term → Int → Term → Except Fault Term} {n : Nat} {f a : Term}
    {d : Doc} (hf : reduceWith sub n f = .ok (.raw d)) :
    reduceWith sub (n + 1) (.binary "$" f a) = .error (rawHeadFault d) := by
  simp only [reduceWith, hf, ok_bind, rawHeadFault]
  split <;> simp_all

theorem reduceN_eq_reduceWith (n : Nat) (t : Term) : reduceN n t = reduceWith subst n t := by
  induction n generalizing t with
  | zero => rfl
  | succ n ih =>
    cases t with
    | binary op a b =>
      by_cases hop : op = "$"
      · subst hop
        -- the head's value picks the branch on both sides
        cases hf : reduceN n a with
        | error e => simp only [reduceN, reduceWith, ← ih, hf, error_bind]
        | ok g =>
          cases g with
          | raw d => rw [reduceN_app_raw hf, reduceWith_app_raw (ih a ▸ hf)]
          | _ => simp only [reduceN, reduceWith, ← ih, hf, ok_bind]
      · simp only [reduceN, reduceWith, ih]
    | _ => simp only [reduceN, reduceWith, ih]

section Steps

variable {n : Nat} {v : Term}

@[simp] theorem reduceN_zero (t : Term) : reduceN 0 t = .error .tooDeep := rfl

@[simp] theorem reduceN_lit (k : Kind) (s : Scalar) :
    reduceN (n + 1) (.lit k s) = .ok (.lit k s) := rfl

@[simp] theorem reduceN_lam (x : Int) (b : Term) : reduceN (n + 1) (.lam x b) = .ok (.lam x b) :=
  rfl

@[simp] theorem reduceN_var (x : Int) : reduceN (n + 1) (.var x) = .ok (.var x) := rfl

theorem reduceN_raw_eq_ok {d : Doc} :
    reduceN (n + 1) (.raw d) = .ok v ↔ d.isValueNode ∧ v = .raw d := by
  simp only [reduceN]
  split
  · constructor
    · intro h
      cases h
      exact ⟨‹_›, rfl⟩
    · rintro ⟨-, rfl⟩
      rfl
  · simp_all

theorem reduceN_unary_eq_ok {op : String} {a : Term} :
    reduceN (n + 1) (.unary op a) = .ok v ↔
      ∃ w s, reduceN n a = .ok w ∧ w.payload = .ok s ∧ applyUnary op s = .ok v := by
  simp only [reduceN]
  constructor
  · intro h
    obtain ⟨w, hw, h⟩ := bind_eq_ok.1 h
    obtain ⟨s, hs, h⟩ := bind_eq_ok.1 h
    exact ⟨w, s, hw, hs, h⟩
  · rintro ⟨w, s, hw, hs, h⟩
    simp [hw, hs, h]

theorem reduceN_app_eq_ok {f a : Term} :
    reduceN (n + 1) (.binary "$" f a) = .ok v ↔
      ∃ x b u, reduceN n f = .ok (.lam x b) ∧ b.subst x a = .ok u ∧ reduceN n u = .ok v := by
  simp only [reduceN]
  constructor
  · intro h
    obtain ⟨g, hg, h⟩ := bind_eq_ok.1 h
    cases g with
    | lam x b =>
      obtain ⟨u, hu, h⟩ := bind_eq_ok.1 h
      exact ⟨x, b, u, hg, hu, h⟩
    | raw d =>
      dsimp only at h
      split at h <;> cases h
    | _ => cases h
  · rintro ⟨x, b, u, hf, hu, h⟩
    simp [hf, hu, h]

/-- An operator other than application evaluates both operands, left first, reads their
payloads and then applies itself. -/
theorem reduceN_binary {op : String} (hop : op ≠ "$") (a b : Term) :
    reduceN (n + 1) (.binary op a b) = (do
      let l ← reduceN n a
      let r ← reduceN n b
      let lv ← l.payload
      let rv ← r.payload
      applyBinary op l r lv rv) := by
  rw [reduceN]
  exact hop

theorem reduceN_binary_eq_ok {op : String} (hop : op ≠ "$") {a b : Term} :
    reduceN (n + 1) (.binary op a b) = .ok v ↔
      ∃ l r lv rv, reduceN n a = .ok l ∧ reduceN n b = .ok r ∧ l.payload = .ok lv ∧
        r.payload = .ok rv ∧ applyBinary op l r lv rv = .ok v := by
  simp only [reduceN]
  constructor
  · intro h
    obtain ⟨l, hl, h⟩ := bind_eq_ok.1 h
    obtain ⟨r, hr, h⟩ := bind_eq_ok.1 h
    obtain ⟨lv, hlv, h⟩ := bind_eq_ok.1 h
    obtain ⟨rv, hrv, h⟩ := bind_eq_ok.1 h
    exact ⟨l, r, lv, rv, hl, hr, hlv, hrv, h⟩
  · rintro ⟨l, r, lv, rv, hl, hr, hlv, hrv, h⟩
    simp [hl, hr, hlv, hrv, h]

theorem reduceN_cond_eq_ok {c t e : Term} :
    reduceN (n + 1) (.cond c t e) = .ok v ↔
      ∃ w s, reduceN n c = .ok w ∧ w.payload = .ok s ∧
        reduceN n (if s.truthy then t else e) = .ok v := by
  simp only [reduceN]
  constructor
  · intro h
    obtain ⟨w, hw, h⟩ := bind_eq_ok.1 h
    obtain ⟨s, hs, h⟩ := bind_eq_ok.1 h
    exact ⟨w, s, hw, hs, by split <;> simp_all⟩
  · rintro ⟨w, s, hw, hs, h⟩
    simp only [hw, hs, ok_bind]
    split <;> simp_all

end Steps

/-- More fuel keeps a finished evaluation. -/
theorem reduceN_mono {n m : Nat} {t v : Term} (h : reduceN n t = .ok v) (hnm : n ≤ m) :
    reduceN m t = .ok v := by
  induction n generalizing t v m with
  | zero => simp at h
  | succ n ih =>
    obtain ⟨m, rfl⟩ : ∃ k, m = k + 1 := ⟨m - 1, by omega⟩
    have hle : n ≤ m := by omega
    cases t with
    | lit k s => simpa using h
    | lam x b => simpa using h
    | var x => simpa using h
    | raw d => exact reduceN_raw_eq_ok.2 (reduceN_raw_eq_ok.1 h)
    | unary op a =>
      obtain ⟨w, s, hw, hs, h⟩ := reduceN_unary_eq_ok.1 h
      exact reduceN_unary_eq_ok.2 ⟨w, s, ih hw hle, hs, h⟩
    | binary op a b =>
      by_cases hop : op = "$"
      · subst hop
        obtain ⟨x, body, u, hf, hu, h⟩ := reduceN_app_eq_ok.1 h
        exact reduceN_app_eq_ok.2 ⟨x, body, u, ih hf hle, hu, ih h hle⟩
      · obtain ⟨l, r, lv, rv, hl, hr, hlv, hrv, h⟩ := (reduceN_binary_eq_ok hop).1 h
        exact (reduceN_binary_eq_ok hop).2 ⟨l, r, lv, rv, ih hl hle, ih hr hle, hlv, hrv, h⟩
    | cond c t e =>
      obtain ⟨w, s, hw, hs, h⟩ := reduceN_cond_eq_ok.1 h
      exact reduceN_cond_eq_ok.2 ⟨w, s, ih hw hle, hs, ih h hle⟩

/-- `t` evaluates to `v` once nesting may go deep enough; by `reduceN_mono`, every depth
beyond some bound then gives `v`. -/
def Evaluates (t v : Term) : Prop := ∃ n, reduceN n t = .ok v

section Evaluates

variable {t v : Term}

theorem evaluates_lit (k : Kind) (s : Scalar) : Evaluates (.lit k s) (.lit k s) := ⟨1, rfl⟩

theorem evaluates_lam (x : Int) (b : Term) : Evaluates (.lam x b) (.lam x b) := ⟨1, rfl⟩

/-- An application evaluates its head to an abstraction, then the body with the argument
put in. -/
theorem Evaluates.app {f a b u : Term} {x : Int} (hf : Evaluates f (lam x b))
    (hu : b.subst x a = .ok u) (h : Evaluates u v) : Evaluates (binary "$" f a) v := by
  obtain ⟨n₁, h₁⟩ := hf
  obtain ⟨n₂, h₂⟩ := h
  exact ⟨max n₁ n₂ + 1, reduceN_app_eq_ok.2
    ⟨x, b, u, reduceN_mono h₁ (by omega), hu, reduceN_mono h₂ (by omega)⟩⟩

/-- An operator other than application evaluates both operands, then applies itself to their
payloads. -/
theorem Evaluates.binary {op : String} (hop : op ≠ "$") {a b l r : Term} {lv rv : Scalar}
    (ha : Evaluates a l) (hb : Evaluates b r) (hl : l.payload = .ok lv) (hr : r.payload = .ok rv)
    (h : applyBinary op l r lv rv = .ok v) : Evaluates (binary op a b) v := by
  obtain ⟨n₁, h₁⟩ := ha
  obtain ⟨n₂, h₂⟩ := hb
  exact ⟨max n₁ n₂ + 1, (reduceN_binary_eq_ok hop).2
    ⟨l, r, lv, rv, reduceN_mono h₁ (by omega), reduceN_mono h₂ (by omega), hl, hr, h⟩⟩

/-- A conditional evaluates its test, then the branch the test's payload picks. -/
theorem Evaluates.cond {c e w : Term} {s : Scalar} (hc : Evaluates c w) (hs : w.payload = .ok s)
    (h : Evaluates (if s.truthy then t else e) v) : Evaluates (cond c t e) v := by
  obtain ⟨n₁, h₁⟩ := hc
  obtain ⟨n₂, h₂⟩ := h
  exact ⟨max n₁ n₂ + 1, reduceN_cond_eq_ok.2
    ⟨w, s, reduceN_mono h₁ (by omega), hs, reduceN_mono h₂ (by omega)⟩⟩

end Evaluates

end Term

end Interstellar
