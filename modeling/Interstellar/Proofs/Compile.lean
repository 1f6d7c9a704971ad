import Interstellar.Proofs.Closure
import Interstellar.Proofs.Readable
import Mathlib.Tactic.SplitIfs

/-!
# Compiled code computes what the interpreter computes

The interpreter evaluates a term by substituting arguments into bodies; compiled code looks
variables up in bindings and has no kind checks. On a closed term that the compiler accepts,
whenever the interpreter gives a literal, compiled code gives its payload:

* `Value.ofScalar` commutes with every operator of `Interstellar.Value`, so compiled operators
  compute on payloads what the interpreter's operators compute;
* `Term.WellFormed`: every literal holds a payload of its declared kind, every operator is one
  the compiler knows, and no node is raw;
* `Term.Agrees w v`: the outcome `w` of compiled code stands for the value node `v`, a literal
  by its payload and an abstraction by a closure whose read-back is that abstraction;
* `Term.Computes env u w`: with enough nesting depth, `u` run in `env` gives `w`;
* `Term.computes_of_reduceN`, the simulation: by induction on the interpreter's fuel, with
  the variables of compiled code looked up until a term that is no variable is found
  (`Env.resolve`);
* `Term.run_eq_of_reduceN`: the compiler accepts the term, its code from empty bindings gives
  the interpreter's literal, and so does the whole pipeline when the target reads the compiled
  text (`Term.Readable`).

Without these conditions it fails (`Term.run_fails_where_reduce_succeeds`): the interpreter
never looks at a branch it does not take, but the compiler rejects an unknown operator
anywhere; and the target refuses string literals with a carriage return and abstractions over
negative numbers, which the interpreter takes as they are.
-/

namespace Interstellar

/-! ### Operators on payloads

Compiled code applies the operators of `Interstellar.Value` to outcomes and the interpreter to
payloads; on an outcome that is a payload, each operator gives the same. -/

namespace Value

variable {F : Type}

@[simp] theorem ofScalar_int (n : Int) : (ofScalar (.int n) : Value F) = .int n := rfl

@[simp] theorem asInt?_ofScalar (s : Scalar) : (ofScalar s : Value F).asInt? = s.asInt? := by
  cases s with
  | fn f => exact f.elim
  | _ => rfl

theorem neg_ofScalar (s : Scalar) : (ofScalar s : Value F).neg = ofScalar <$> s.neg := by
  unfold neg
  cases h : s.asInt? <;> simp [h]

theorem numeralText_ofScalar (s : Scalar) : (ofScalar s : Value F).numeralText = s.numeralText := by
  cases s with
  | fn f => exact f.elim
  | _ => rfl

theorem letterText_ofScalar (s : Scalar) : (ofScalar s : Value F).letterText = s.letterText := by
  cases s with
  | fn f => exact f.elim
  | _ => rfl

theorem numberOfLetters_ofScalar (s : Scalar) :
    (ofScalar s : Value F).numberOfLetters = ofScalar <$> s.numberOfLetters := by
  unfold numberOfLetters
  rw [letterText_ofScalar]
  cases s.letterText with
  | error e => rfl
  | ok b =>
    simp only [ok_bind]
    cases Numeral.read b <;> rfl

theorem lettersOfNumber_ofScalar (s : Scalar) :
    (ofScalar s : Value F).lettersOfNumber = ofScalar <$> s.lettersOfNumber := by
  unfold lettersOfNumber
  rw [numeralText_ofScalar]
  cases s.numeralText with
  | error e => rfl
  | ok b =>
    simp only [ok_bind]
    cases Letter.decode b <;> rfl

theorem add_ofScalar (a b : Scalar) :
    (ofScalar a : Value F).add (ofScalar b) = ofScalar <$> a.add b := by
  rcases a with _ | _ | _ | ⟨⟨⟩⟩ <;> rcases b with _ | _ | _ | ⟨⟨⟩⟩ <;> rfl

theorem sub_ofScalar (a b : Scalar) :
    (ofScalar a : Value F).sub (ofScalar b) = ofScalar <$> a.sub b := by
  rcases a with _ | _ | _ | ⟨⟨⟩⟩ <;> rcases b with _ | _ | _ | ⟨⟨⟩⟩ <;> rfl

/-- Repetition does not look at what functions may be; not a simp lemma, as both sides
mention it. -/
theorem repeat_ofScalar (s : String) (n : Int) :
    («repeat» s n : Except Fault (Value F)) = ofScalar <$> («repeat» s n : Except Fault Scalar) := by
  unfold «repeat»
  dsimp only
  split_ifs <;> rfl

theorem mul_ofScalar (a b : Scalar) :
    (ofScalar a : Value F).mul (ofScalar b) = ofScalar <$> a.mul b := by
  cases a with
  | fn f => exact f.elim
  | str s =>
    cases b with
    | fn f => exact f.elim
    | str t => rfl
    | _ => exact repeat_ofScalar _ _
  | _ =>
    cases b with
    | fn f => exact f.elim
    | str t => exact repeat_ofScalar _ _
    | _ => rfl

theorem quotient_ofScalar (a b : Scalar) :
    (ofScalar a : Value F).quotient (ofScalar b) = ofScalar <$> a.quotient b := by
  unfold quotient
  simp only [asInt?_ofScalar, typeName_ofScalar]
  split
  · split <;> rfl
  · rfl

theorem remainder_ofScalar (a b : Scalar) :
    (ofScalar a : Value F).remainder (ofScalar b) = ofScalar <$> a.remainder b := by
  unfold remainder
  simp only [asInt?_ofScalar, typeName_ofScalar]
  split
  · rfl
  · split
    · rfl
    · split <;> rfl

theorem compare_ofScalar (lt : Bool) (a b : Scalar) :
    (ofScalar a : Value F).compare lt (ofScalar b) = ofScalar <$> a.compare lt b := by
  rcases a with _ | _ | _ | ⟨⟨⟩⟩ <;> rcases b with _ | _ | _ | ⟨⟨⟩⟩ <;> rfl

theorem equal_ofScalar (a b : Scalar) : (ofScalar a : Value F).equal (ofScalar b) = a.equal b := by
  rcases a with _ | _ | _ | ⟨⟨⟩⟩ <;> rcases b with _ | _ | _ | ⟨⟨⟩⟩ <;> rfl

theorem take_ofScalar (s n : Scalar) :
    (ofScalar s : Value F).take (ofScalar n) = ofScalar <$> s.take n := by
  rcases s with _ | _ | _ | ⟨⟨⟩⟩ <;> rcases n with _ | _ | _ | ⟨⟨⟩⟩ <;> rfl

theorem drop_ofScalar (s n : Scalar) :
    (ofScalar s : Value F).drop (ofScalar n) = ofScalar <$> s.drop n := by
  rcases s with _ | _ | _ | ⟨⟨⟩⟩ <;> rcases n with _ | _ | _ | ⟨⟨⟩⟩ <;> rfl

end Value

/-! ### Well-formed terms and agreeing outcomes -/

namespace Term

/-- The unary operators of the language. -/
def unaryOps : List String := ["-", "!", "#", "$"]

/-- The binary operators of the language. -/
def binaryOps : List String :=
  ["+", "-", "*", "/", "%", "<", ">", "=", "|", "&", ".", "T", "D", "$"]

/-- A term as program text can write it with the operators of the language: every literal
holds a payload of its declared kind, every operator is one the compiler knows, and no node
is raw. -/
def WellFormed : Term → Prop
  | .lit k v => (lit k v).WellKinded
  | .unary op a => op ∈ unaryOps ∧ a.WellFormed
  | .binary op a b => op ∈ binaryOps ∧ a.WellFormed ∧ b.WellFormed
  | .lam _ b => b.WellFormed
  | .var _ => True
  | .cond c t e => c.WellFormed ∧ t.WellFormed ∧ e.WellFormed
  | .raw _ => False

/-- What the compiled code of a term gives, read as the value of a term: a literal by its
payload, an abstraction by a function that closes over an environment standing for the same
abstraction. -/
def Agrees (w : Outcome) : Term → Prop
  | .lit _ s => w = Value.ofScalar s
  | .lam x b => ∃ c : Closure, w = .fn c ∧
      (lam c.param c.body).substAll (Env.close c.env) = lam x b ∧ Env.Good c.env
  | _ => False

/-- A unary operator of compiled code computes what the interpreter's operator gives on the
payload of the operand. -/
theorem runN_unary_agrees {op : String} {s : Scalar} {v : Term} (h : applyUnary op s = .ok v) :
    ∃ w, Agrees w v ∧ ∀ {m : Nat} {env : Env} {a : Term},
      runN m env a = .ok (Value.ofScalar s) → runN (m + 1) env (unary op a) = .ok w := by
  unfold applyUnary at h
  split at h
  · obtain ⟨s', hs, rfl⟩ := map_lit_eq_ok h
    exact ⟨_, rfl, fun ha => by simp only [runN, ha, ok_bind, Value.neg_ofScalar, hs, map_ok]⟩
  · cases h
    exact ⟨.bool !s.truthy, rfl, fun ha => by simp only [runN, ha, ok_bind, Value.truthy_ofScalar]⟩
  · obtain ⟨s', hs, rfl⟩ := map_lit_eq_ok h
    exact ⟨_, rfl, fun ha => by
      simp only [runN, ha, ok_bind, Value.numberOfLetters_ofScalar, hs, map_ok]⟩
  · obtain ⟨s', hs, rfl⟩ := map_lit_eq_ok h
    exact ⟨_, rfl, fun ha => by
      simp only [runN, ha, ok_bind, Value.lettersOfNumber_ofScalar, hs, map_ok]⟩
  · cases h

theorem arith_eq_ok {want : Kind} {f : Scalar → Scalar → Except Fault Scalar} {l r : Term}
    {lv rv : Scalar} {v : Term} (h : arith want f l r lv rv = .ok v) :
    (lit want <$> f lv rv) = .ok v := by
  unfold arith at h
  split at h
  · exact h
  · cases h

/-- Compiled code runs every operator but application, `|`, `&`, `T` and `D` by evaluating both
operands and then `combine`. -/
theorem runN_binary_combine {op : String} (hop : op ∉ ["$", "|", "&", "T", "D"]) {m : Nat}
    {env : Env} {a b : Term} :
    runN (m + 1) env (binary op a b) =
      (runN m env a >>= fun l => runN m env b >>= fun r => combine op l r) := by
  simp only [List.mem_cons, List.not_mem_nil, or_false, not_or] at hop
  obtain ⟨h₁, h₂, h₃, h₄, h₅⟩ := hop
  simp only [runN]

/-- An operator that compiled code runs through `combine` computes what `f` computes on the
payloads. -/
theorem runN_combine_agrees (op : String) (hop : op ∉ ["$", "|", "&", "T", "D"])
    {f : Scalar → Scalar → Except Fault Scalar}
    (hf : ∀ x y : Scalar, combine op (Value.ofScalar x) (Value.ofScalar y) =
      Value.ofScalar <$> f x y)
    {k : Kind} {lv rv : Scalar} {v : Term} (h : (lit k <$> f lv rv) = .ok v) :
    ∃ w, Agrees w v ∧ ∀ {m : Nat} {env : Env} {a b : Term},
      runN m env a = .ok (Value.ofScalar lv) → runN m env b = .ok (Value.ofScalar rv) →
        runN (m + 1) env (binary op a b) = .ok w := by
  obtain ⟨s, hs, rfl⟩ := map_lit_eq_ok h
  refine ⟨Value.ofScalar s, rfl, fun ha hb => ?_⟩
  rw [runN_binary_combine hop, ha, ok_bind, hb, ok_bind, hf, hs, map_ok]

/-- A binary operator of compiled code other than application computes what the
interpreter's operator gives on the payloads of the operands. -/
theorem runN_binary_agrees {op : String} {l r : Term} {lv rv : Scalar} {v : Term}
    (h : applyBinary op l r lv rv = .ok v) :
    ∃ w, Agrees w v ∧ ∀ {m : Nat} {env : Env} {a b : Term},
      runN m env a = .ok (Value.ofScalar lv) → runN m env b = .ok (Value.ofScalar rv) →
        runN (m + 1) env (binary op a b) = .ok w := by
  unfold applyBinary at h
  split at h
  · exact runN_combine_agrees "+" (by decide) Value.add_ofScalar (arith_eq_ok h)
  · exact runN_combine_agrees "-" (by decide) Value.sub_ofScalar (arith_eq_ok h)
  · exact runN_combine_agrees "*" (by decide) Value.mul_ofScalar (arith_eq_ok h)
  · exact runN_combine_agrees "/" (by decide) Value.quotient_ofScalar (arith_eq_ok h)
  · exact runN_combine_agrees "%" (by decide) Value.remainder_ofScalar (arith_eq_ok h)
  · exact runN_combine_agrees "<" (by decide) (Value.compare_ofScalar true) (arith_eq_ok h)
  · exact runN_combine_agrees ">" (by decide) (Value.compare_ofScalar false) (arith_eq_ok h)
  · -- equality has no payload function of its own: it always succeeds
    split at h
    · cases h
      exact ⟨.bool (lv.equal rv), rfl, fun ha hb => by
        rw [runN_binary_combine (by decide), ha, ok_bind, hb, ok_bind]
        simp only [combine, Value.equal_ofScalar]⟩
    · cases h
  · -- `|` and `&` give back an operand and run the right one only when it decides
    split at h
    · cases h
      refine ⟨Value.ofScalar (if lv.truthy then lv else rv), rfl, fun ha hb => ?_⟩
      simp only [runN, ha, hb, ok_bind, Value.truthy_ofScalar]
      split <;> rfl
    · cases h
  · split at h
    · cases h
      refine ⟨Value.ofScalar (if lv.truthy then rv else lv), rfl, fun ha hb => ?_⟩
      simp only [runN, ha, hb, ok_bind, Value.truthy_ofScalar]
      split <;> rfl
    · cases h
  · split at h
    · exact runN_combine_agrees "." (by decide) Value.add_ofScalar h
    · cases h
  · split_ifs at h
    obtain ⟨s, hs, rfl⟩ := map_lit_eq_ok h
    exact ⟨_, rfl, fun ha hb => by
      simp only [runN, ha, hb, ok_bind, Value.take_ofScalar, hs, map_ok]⟩
  · split_ifs at h
    obtain ⟨s, hs, rfl⟩ := map_lit_eq_ok h
    exact ⟨_, rfl, fun ha hb => by
      simp only [runN, ha, hb, ok_bind, Value.drop_ofScalar, hs, map_ok]⟩
  · cases h

/-- A payload is read off a literal only. -/
theorem payload_eq_ok {w : Term} {s : Scalar} (h : w.payload = .ok s) : ∃ k, w = .lit k s := by
  cases w with
  | lit k v => cases h; exact ⟨k, rfl⟩
  | raw d => cases h
  | _ => cases h

theorem WellFormed.wellKinded {t : Term} (h : t.WellFormed) : t.WellKinded := by
  induction t with
  | lit k v => exact h
  | unary op a ih => exact ih h.2
  | binary op a b iha ihb => exact ⟨iha h.2.1, ihb h.2.2⟩
  | lam x b ih => exact ih h
  | var x => trivial
  | cond c t e ihc iht ihe => exact ⟨ihc h.1, iht h.2.1, ihe h.2.2⟩
  | raw d => exact h

/-- Substituting well-formed terms keeps a term well formed. -/
theorem wellFormed_substAll {σ : List (Int × Term)} (hσ : ∀ p ∈ σ, p.2.WellFormed) {t : Term}
    (ht : t.WellFormed) : (t.substAll σ).WellFormed := by
  induction t generalizing σ with
  | var x =>
    cases hl : σ.lookup x with
    | none => simp only [substAll, hl, Option.getD_none]; trivial
    | some u => simpa only [substAll, hl, Option.getD_some] using hσ _ (mem_of_lookup hl)
  | lam x b ih => exact ih (fun p hp => hσ p (List.mem_filter.1 hp).1) ht
  | unary op a ih => exact ⟨ht.1, ih hσ ht.2⟩
  | binary op a b iha ihb => exact ⟨ht.1, iha hσ ht.2.1, ihb hσ ht.2.2⟩
  | cond c t e ihc iht ihe => exact ⟨ihc hσ ht.1, iht hσ ht.2.1, ihe hσ ht.2.2⟩
  | lit k v => exact ht
  | raw d => exact ht.elim

/-- The abstractions the interpreter gives back for a well-formed term have well-formed
bodies: operators only ever give literals. -/
theorem reduceN_lam_wellFormed {n : Nat} {t : Term} {x : Int} {b : Term} (ht : t.WellFormed)
    (h : reduceN n t = .ok (.lam x b)) : b.WellFormed := by
  induction n generalizing t x b with
  | zero => simp at h
  | succ n ih =>
    cases t with
    | lit k s => cases h
    | lam y c => cases h; exact ht
    | var y => cases h
    | raw d => exact ht.elim
    | unary op a =>
      obtain ⟨_, _, _, _, h⟩ := reduceN_unary_eq_ok.1 h
      obtain ⟨k, s, hv⟩ := applyUnary_eq_lit h
      cases hv
    | binary op a c =>
      by_cases hop : op = "$"
      · subst hop
        obtain ⟨y, body, u, hf, hu, h⟩ := reduceN_app_eq_ok.1 h
        have hbody : body.WellFormed := ih ht.2.1 hf
        rw [subst_eq_substAll hbody.wellKinded] at hu
        cases hu
        refine ih (wellFormed_substAll ?_ hbody) h
        simpa using ht.2.2
      · obtain ⟨_, _, _, _, _, _, _, _, h⟩ := (reduceN_binary_eq_ok hop).1 h
        obtain ⟨k, s, hv⟩ := applyBinary_eq_lit h
        cases hv
    | cond c t e =>
      obtain ⟨_, s, _, _, h⟩ := reduceN_cond_eq_ok.1 h
      exact ih (by split <;> simp [ht.2.1, ht.2.2]) h

/-! ### Runs that settle -/

/-- Compiled code run in `env` settles on `w`: with enough nesting depth it gives `w`. -/
def Computes (env : Env) (u : Term) (w : Outcome) : Prop :=
  ∃ m₀, ∀ m ≥ m₀, runN m env u = .ok w

section Computes

variable {env : Env} {w : Outcome}

theorem Computes.lit {k : Kind} {s : Scalar} (h : (lit k s).WellKinded) :
    Computes env (lit k s) (Value.ofScalar s) := by
  refine ⟨1, fun m hm => ?_⟩
  obtain ⟨m, rfl⟩ : ∃ m', m = m' + 1 := ⟨m - 1, by omega⟩
  cases k with
  | boolean =>
    obtain ⟨b, rfl⟩ := h
    rfl
  | integer => rfl
  | string => rfl

theorem Computes.lam (x : Int) (b : Term) : Computes env (lam x b) (.fn ⟨x, b, env⟩) := by
  refine ⟨1, fun m hm => ?_⟩
  obtain ⟨m, rfl⟩ : ∃ m', m = m' + 1 := ⟨m - 1, by omega⟩
  rfl

/-- A variable computes what the term of the thunk bound to it computes. -/
theorem Computes.var {x : Int} {u : Term} {env' : Env} (hx : env.find? x = some (.mk u env'))
    (h : Computes env' u w) : Computes env (var x) w := by
  obtain ⟨m₀, hm⟩ := h
  refine ⟨m₀ + 1, fun m hm' => ?_⟩
  obtain ⟨m, rfl⟩ : ∃ m', m = m' + 1 := ⟨m - 1, by omega⟩
  simp only [runN, hx]
  exact hm m (by omega)

/-- One operator step after its operand settles. -/
theorem Computes.step {a u : Term} {x : Outcome} (ha : Computes env a x)
    (h : ∀ {m : Nat}, runN m env a = .ok x → runN (m + 1) env u = .ok w) : Computes env u w := by
  obtain ⟨m₀, hm⟩ := ha
  refine ⟨m₀ + 1, fun m hm' => ?_⟩
  obtain ⟨m, rfl⟩ : ∃ m', m = m' + 1 := ⟨m - 1, by omega⟩
  exact h (hm m (by omega))

/-- One operator step after both its operands settle. -/
theorem Computes.step₂ {a b u : Term} {x y : Outcome} (ha : Computes env a x)
    (hb : Computes env b y)
    (h : ∀ {m : Nat}, runN m env a = .ok x → runN m env b = .ok y → runN (m + 1) env u = .ok w) :
    Computes env u w := by
  obtain ⟨m₀, hm⟩ := ha
  obtain ⟨m₁, hm₁⟩ := hb
  refine ⟨max m₀ m₁ + 1, fun m hm' => ?_⟩
  obtain ⟨m, rfl⟩ : ∃ m', m = m' + 1 := ⟨m - 1, by omega⟩
  exact h (hm m (by omega)) (hm₁ m (by omega))

/-- An application calls the function its head settles on with the unevaluated argument. -/
theorem Computes.app {f a : Term} {c : Closure} (hf : Computes env f (.fn c))
    (h : Computes ((c.param, .mk a env) :: c.env) c.body w) :
    Computes env (binary "$" f a) w := by
  obtain ⟨m₀, hm₀⟩ := hf
  obtain ⟨m₁, hm₁⟩ := h
  refine ⟨max m₀ m₁ + 1, fun m hm' => ?_⟩
  obtain ⟨m, rfl⟩ : ∃ m', m = m' + 1 := ⟨m - 1, by omega⟩
  simp only [runN, hm₀ m (by omega), ok_bind]
  exact hm₁ m (by omega)

/-- A conditional runs the branch its test's truth picks. -/
theorem Computes.cond {c t e : Term} {x : Outcome} (hc : Computes env c x)
    (h : Computes env (if x.truthy then t else e) w) : Computes env (cond c t e) w := by
  obtain ⟨m₀, hm₀⟩ := hc
  obtain ⟨m₁, hm₁⟩ := h
  refine ⟨max m₀ m₁ + 1, fun m hm' => ?_⟩
  obtain ⟨m, rfl⟩ : ∃ m', m = m' + 1 := ⟨m - 1, by omega⟩
  simp only [runN, hm₀ m (by omega), ok_bind]
  have := hm₁ m (by omega)
  split <;> simp_all

end Computes

end Term

/-! ### The simulation -/

/-- Looking a variable up, and the variable found there up in turn, ends at a term that is no
variable and stands for the same closed term; each lookup enters a smaller environment. -/
theorem Env.resolve {env : Env} (henv : env.Good) {x : Int} {t : Term}
    (hx : (Term.var x).substAll (Env.close env) = t) (ht : t.Closed) :
    ∃ env' u, (∀ y, u ≠ .var y) ∧ env'.Good ∧ u.substAll (Env.close env') = t ∧
      ∀ w, Term.Computes env' u w → Term.Computes env (.var x) w := by
  rw [Term.substAll, Env.lookup_close] at hx
  cases hf : env.find? x with
  | none =>
    rw [hf, Option.map_none, Option.getD_none] at hx
    subst hx
    exact absurd ht (Term.not_closed_var x)
  | some th =>
    obtain ⟨u, env'⟩ := th
    rw [hf, Option.map_some, Option.getD_some, Thunk.close_mk] at hx
    obtain ⟨y, hy⟩ := Env.exists_mem_of_find? hf
    have henv' : Env.Good env' := (henv _ hy).env_good
    by_cases hu : ∃ z, u = .var z
    · obtain ⟨z, rfl⟩ := hu
      obtain ⟨env'', u', hnv, hgood, hu', hlift⟩ := Env.resolve henv' hx ht
      exact ⟨env'', u', hnv, hgood, hu', fun w hw => Term.Computes.var hf (hlift w hw)⟩
    · exact ⟨env', u, fun z hz => hu ⟨z, hz⟩, henv', hx, fun w hw => Term.Computes.var hf hw⟩
termination_by sizeOf env
decreasing_by exact Env.sizeOf_lt_of_find? hf

namespace Term

/-- **Simulation.** Whatever the interpreter gives for a closed well-formed term, compiled code
run in good bindings that stand for that term computes too, given enough nesting depth. -/
theorem computes_of_reduceN {n : Nat} {t v : Term} (h : reduceN n t = .ok v) (ht : t.Closed)
    (hw : t.WellFormed) {env : Env} {u : Term} (henv : Env.Good env)
    (hu : u.substAll (Env.close env) = t) : ∃ w, Agrees w v ∧ Computes env u w := by
  induction n generalizing t v env u with
  | zero => simp at h
  | succ n ih =>
    -- a variable is looked up until a term that is no variable is found
    obtain ⟨env, u, hnv, henv, hu, hlift⟩ : ∃ env' u', (∀ y, u' ≠ .var y) ∧ Env.Good env' ∧
        u'.substAll (Env.close env') = t ∧ ∀ w, Computes env' u' w → Computes env u w := by
      cases u with
      | var x => exact Env.resolve henv hu ht
      | _ => exact ⟨env, _, by simp, henv, hu, fun _ => id⟩
    suffices ∃ w, Agrees w v ∧ Computes env u w by
      obtain ⟨w, hwv, hc⟩ := this
      exact ⟨w, hwv, hlift w hc⟩
    subst hu
    cases u with
    | var x => exact absurd rfl (hnv x)
    | raw d => exact hw.elim
    | lit k s =>
      cases h
      exact ⟨_, rfl, Computes.lit hw⟩
    | lam x b =>
      cases h
      exact ⟨_, ⟨_, rfl, rfl, henv⟩, Computes.lam x b⟩
    | unary op a =>
      obtain ⟨_, s, ha, hs, hop⟩ := reduceN_unary_eq_ok.1 h
      obtain ⟨k, rfl⟩ := payload_eq_ok hs
      obtain ⟨x, hx, hca⟩ := ih ha ht hw.2 henv rfl
      obtain ⟨w, hwv, hrun⟩ := runN_unary_agrees hop
      exact ⟨w, hwv, hca.step fun hm => hrun (hx ▸ hm)⟩
    | binary op a b =>
      have hab := closed_binary.1 ht
      by_cases hop : op = "$"
      · subst hop
        obtain ⟨x, body, u', hf, hsub, hr⟩ := reduceN_app_eq_ok.1 h
        obtain ⟨_, ⟨c, rfl, hc, hcg⟩, hcf⟩ := ih hf hab.1 hw.2.1 henv rfl
        simp only [substAll, lam.injEq] at hc
        obtain ⟨rfl, hbody⟩ := hc
        have hbw : body.WellFormed := reduceN_lam_wellFormed hw.2.1 hf
        have hu' : u'.Closed := closed_subst (reduceN_closed hab.1 hf).1 hab.2 hsub
        rw [subst_eq_substAll hbw.wellKinded] at hsub
        cases hsub
        -- the argument is bound to its thunk in front of the closure's bindings
        have henv' : Env.Good ((c.param, .mk b env) :: c.env) :=
          hcg.cons c.param (.mk (by simpa using hab.2) henv)
        have hclose : c.body.substAll (Env.close ((c.param, .mk b env) :: c.env)) =
            body.substAll [(c.param, b.substAll (Env.close env))] := by
          rw [Env.close_cons, Thunk.close_mk, substAll_cons (Env.closed_close hcg), hbody]
        obtain ⟨w, hwv, hcw⟩ :=
          ih hr hu' (wellFormed_substAll (by simpa using hw.2.2) hbw) henv' hclose
        exact ⟨w, hwv, Computes.app hcf hcw⟩
      · obtain ⟨l, r, lv, rv, hl, hr, hlv, hrv, hop'⟩ := (reduceN_binary_eq_ok hop).1 h
        obtain ⟨kl, rfl⟩ := payload_eq_ok hlv
        obtain ⟨kr, rfl⟩ := payload_eq_ok hrv
        obtain ⟨x, hx, hca⟩ := ih hl hab.1 hw.2.1 henv rfl
        obtain ⟨y, hy, hcb⟩ := ih hr hab.2 hw.2.2 henv rfl
        obtain ⟨w, hwv, hrun⟩ := runN_binary_agrees hop'
        exact ⟨w, hwv, Computes.step₂ hca hcb fun hma hmb => hrun (hx ▸ hma) (hy ▸ hmb)⟩
    | cond c t e =>
      have hcte := closed_cond.1 ht
      obtain ⟨_, s, hc, hs, hb⟩ := reduceN_cond_eq_ok.1 h
      obtain ⟨k, rfl⟩ := payload_eq_ok hs
      obtain ⟨x, hx, hcc⟩ := ih hc hcte.1 hw.1 henv rfl
      have hbranch : (if s.truthy then t else e).substAll (Env.close env) =
          if s.truthy then t.substAll (Env.close env) else e.substAll (Env.close env) := by
        split <;> rfl
      obtain ⟨w, hwv, hcw⟩ := ih hb (by split <;> simp [hcte]) (by split <;> simp [hw.2.1, hw.2.2])
        henv hbranch
      refine ⟨w, hwv, Computes.cond hcc ?_⟩
      rwa [show x = Value.ofScalar s from hx, Value.truthy_ofScalar]

/-! ### Compilation -/

theorem unaryText_ok {op : String} (h : op ∈ unaryOps) (a : String) :
    ∃ src, unaryText op a = .ok src := by
  simp only [unaryOps, List.mem_cons, List.not_mem_nil, or_false] at h
  rcases h with rfl | rfl | rfl | rfl <;> exact ⟨_, rfl⟩

theorem binaryText_ok {op : String} (h : op ∈ binaryOps) (l r : String) :
    ∃ src, binaryText op l r = .ok src := by
  simp only [binaryOps, List.mem_cons, List.not_mem_nil, or_false] at h
  rcases h with rfl | rfl | rfl | rfl | rfl | rfl | rfl | rfl | rfl | rfl | rfl | rfl | rfl | rfl <;>
    exact ⟨_, rfl⟩

/-- A well-formed term always compiles. -/
theorem compile_ok_of_wellFormed {t : Term} (h : t.WellFormed) : ∃ src, t.compile = .ok src := by
  induction t with
  | lit k v =>
    cases k with
    | string =>
      obtain ⟨s, rfl⟩ := h
      exact ⟨_, rfl⟩
    | _ => exact ⟨_, rfl⟩
  | unary op a ih =>
    obtain ⟨sa, ha⟩ := ih h.2
    obtain ⟨src, hsrc⟩ := unaryText_ok h.1 sa
    exact ⟨src, by simp only [compile, ha, ok_bind, hsrc]⟩
  | binary op a b iha ihb =>
    obtain ⟨sa, ha⟩ := iha h.2.1
    obtain ⟨sb, hb⟩ := ihb h.2.2
    obtain ⟨src, hsrc⟩ := binaryText_ok h.1 sa sb
    exact ⟨src, by simp only [compile, ha, hb, ok_bind, hsrc]⟩
  | lam x b ih =>
    obtain ⟨sb, hb⟩ := ih h
    exact ⟨_, by simp only [compile, hb, ok_bind]; rfl⟩
  | var x => exact ⟨_, rfl⟩
  | cond c t e ihc iht ihe =>
    obtain ⟨sc, hc⟩ := ihc h.1
    obtain ⟨st, ht⟩ := iht h.2.1
    obtain ⟨se, he⟩ := ihe h.2.2
    exact ⟨_, by simp only [compile, hc, ht, he, ok_bind]; rfl⟩
  | raw d => exact h.elim

/-- **Compiled code computes what the interpreter computes.** A closed well-formed term whose
interpretation is a literal compiles, its compiled code from empty bindings settles on the
literal's payload once nesting is deep enough, and the whole pipeline gives that payload when
the target reads the compiled text: within its limits, and for a readable term. -/
theorem run_eq_of_reduceN {t : Term} {n : Nat} {k : Kind} {s : Scalar} (ht : t.Closed)
    (hw : t.WellFormed) (h : reduceN n t = .ok (.lit k s)) :
    (∃ src, t.compile = .ok src) ∧ ∃ m₀, (∀ m ≥ m₀, runN m [] t = .ok (Value.ofScalar s)) ∧
      (m₀ ≤ runDepth → t.nesting ≤ maxNesting → t.Readable →
        t.run = .ok (Value.ofScalar s)) := by
  obtain ⟨src, hsrc⟩ := compile_ok_of_wellFormed hw
  -- empty bindings stand for the term itself
  obtain ⟨w, hwv, m₀, hm⟩ : ∃ w, Agrees w (.lit k s) ∧ Computes [] t w :=
    computes_of_reduceN h ht hw (fun _ h => nomatch h) (substAll_nil t)
  cases hwv
  refine ⟨⟨src, hsrc⟩, m₀, hm, fun hdepth hnest hread => ?_⟩
  rw [run_eq_runN hsrc hread hnest]
  exact hm runDepth hdepth

/-- The shadowing program `B$ L" B* B$ L" B+ v" v" v" v" I$` gives `18` both ways. -/
theorem run_shadowing_eq_reduceN :
    (binary "$" (lam 1 (binary "*" (binary "$" (lam 1 (binary "+" (var 1) (var 1))) (var 1))
      (var 1))) (int 3)).Closed ∧
    (binary "$" (lam 1 (binary "*" (binary "$" (lam 1 (binary "+" (var 1) (var 1))) (var 1))
      (var 1))) (int 3)).WellFormed ∧
    reduceN depthLimit (binary "$" (lam 1 (binary "*" (binary "$" (lam 1 (binary "+" (var 1)
      (var 1))) (var 1)) (var 1))) (int 3)) = .ok (int 18) ∧
    ((∃ src, (binary "$" (lam 1 (binary "*" (binary "$" (lam 1 (binary "+" (var 1) (var 1)))
      (var 1)) (var 1))) (int 3)).compile = .ok src) ∧
    ∃ m₀, (∀ m ≥ m₀, runN m [] (binary "$" (lam 1 (binary "*" (binary "$" (lam 1
      (binary "+" (var 1) (var 1))) (var 1)) (var 1))) (int 3)) = .ok (Value.ofScalar (.int 18))) ∧
      (m₀ ≤ runDepth → (binary "$" (lam 1 (binary "*" (binary "$" (lam 1 (binary "+" (var 1)
        (var 1))) (var 1)) (var 1))) (int 3)).nesting ≤ maxNesting →
        (binary "$" (lam 1 (binary "*" (binary "$" (lam 1 (binary "+" (var 1) (var 1)))
          (var 1)) (var 1))) (int 3)).Readable →
        (binary "$" (lam 1 (binary "*" (binary "$" (lam 1 (binary "+" (var 1) (var 1)))
          (var 1)) (var 1))) (int 3)).run = .ok (Value.ofScalar (.int 18)))) := by
  have hc : (binary "$" (lam 1 (binary "*" (binary "$" (lam 1 (binary "+" (var 1) (var 1)))
      (var 1)) (var 1))) (int 3)).Closed := by decide
  have hw : (binary "$" (lam 1 (binary "*" (binary "$" (lam 1 (binary "+" (var 1) (var 1)))
      (var 1)) (var 1))) (int 3)).WellFormed := by
    simp [WellFormed, WellKinded, binaryOps]
  have hr : reduceN depthLimit (binary "$" (lam 1 (binary "*" (binary "$" (lam 1
      (binary "+" (var 1) (var 1))) (var 1)) (var 1))) (int 3)) = .ok (int 18) := rfl
  exact ⟨hc, hw, hr, run_eq_of_reduceN hc hw hr⟩

/-- Three closed terms that the interpreter takes to a literal and whose compiled text gives
nothing: a branch that is never taken is still compiled, so `? T I" U~ I!` gives `1` but has no
compiled text; the target cannot read a string literal with a carriage return; and an
abstraction over `-3` is written `lambda v-3:`, which is no expression. -/
theorem run_fails_where_reduce_succeeds :
    (reduce (cond (bool true) (int 1) (unary "~" (int 0))) = .ok (int 1) ∧
      (cond (bool true) (int 1) (unary "~" (int 0))).run = .error (.unknownUnary "~")) ∧
    (reduce (str "a\rb") = .ok (str "a\rb") ∧ (str "a\rb").run = .error .unterminatedString) ∧
    (reduce (binary "$" (lam (-3) (int 1)) (int 2)) = .ok (int 1) ∧
      (binary "$" (lam (-3) (int 1)) (int 2)).run = .error .invalidSyntax) :=
  ⟨⟨rfl, rfl⟩, ⟨rfl, rfl⟩, ⟨rfl, rfl⟩⟩

end Term

end Interstellar
