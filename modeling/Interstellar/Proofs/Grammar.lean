import Interstellar.Proofs.Text

/-!
# The prefix grammar of program text

Reading takes one term from the front of a list of tokens, in prefix form. The first character
of a token says how many operands it takes: `U` and `L` one, `B` two, `?` three, and `T`, `F`,
`I`, `S` and `v` none. This module says what reading returns in those terms alone:

* `Term.arity`: the operands a token takes; `Term.owed k ts`: how many terms are still to come
  after the tokens `ts` when `k` were to come before them; `Term.Whole p`: the tokens `p` are
  the text of exactly one term;
* `Term.owed_append` and `Term.Whole.eq_of_append_eq`: whole texts are a prefix code, so a list
  of tokens has at most one whole prefix;
* `Term.Reads p t`: the grammar. `t` is the tree of the tokens `p` read as far as they go, with
  a hole for every operand that the tokens end before; `Term.Reads.owed` counts what such a
  text still owes, nothing exactly when the tree has no hole;
* `Term.readN_reads` and `Term.readN_of_reads`: reading follows the grammar, and the grammar
  gives what reading returns, so each text has one tree (`Term.Reads.unique`);
* `Term.read_whole_prefix`: reading returns the tree of the one whole prefix of the tokens and
  the tokens after it; when no prefix is whole, the tree of all the tokens, with holes, and
  nothing after.
-/

namespace Interstellar

namespace Term

/-! ### Arities -/

/-- The number of operands a token takes, by its first character; none for a token that starts
no term. -/
def arity (tok : String) : Option Nat :=
  match tok.toList with
  | 'T' :: _ | 'F' :: _ | 'I' :: _ | 'S' :: _ | 'v' :: _ => some 0
  | 'U' :: _ | 'L' :: _ => some 1
  | 'B' :: _ => some 2
  | '?' :: _ => some 3
  | _ => none

/-- The number of terms still to come after the tokens `ts` when `k` were to come before them;
none when a token starts no term, or comes when no term is to come. -/
def owed : Nat → List String → Option Nat
  | k, [] => some k
  | 0, _ :: _ => none
  | k + 1, tok :: ts => (arity tok).bind fun a => owed (k + a) ts

/-- The tokens `p` are the text of one whole term. -/
def Whole (p : List String) : Prop := owed 1 p = some 0

instance : DecidablePred Whole := fun p => inferInstanceAs (Decidable (owed 1 p = some 0))

section Owed

variable {k m : Nat} {x y : List String}

@[simp] theorem owed_nil (k : Nat) : owed k [] = some k := by cases k <;> rfl

@[simp] theorem owed_zero_cons (tok : String) (ts : List String) : owed 0 (tok :: ts) = none :=
  rfl

theorem owed_cons {tok : String} {a : Nat} (h : arity tok = some a) (ts : List String) :
    owed (k + 1) (tok :: ts) = owed (k + a) ts := by
  simp [owed, h]

/-- The terms owed after two texts in a row: those owed after the first are owed by the second. -/
theorem owed_append (k : Nat) (x y : List String) :
    owed k (x ++ y) = (owed k x).bind (owed · y) := by
  induction x generalizing k with
  | nil => simp
  | cons tok x ih =>
    cases k with
    | zero => rfl
    | succ k =>
      simp only [List.cons_append, owed]
      cases arity tok with
      | none => rfl
      | some a => exact ih (k + a)

/-- Owing more terms at the start owes as many more at the end. -/
theorem owed_add (h : owed k x = some m) (j : Nat) : owed (k + j) x = some (m + j) := by
  induction x generalizing k with
  | nil => simpa using h
  | cons tok x ih =>
    cases k with
    | zero => simp at h
    | succ k =>
      obtain ⟨a, ha, h⟩ := Option.bind_eq_some_iff.1 h
      rw [show k + 1 + j = k + j + 1 by omega, owed_cons ha, show k + j + a = k + a + j by omega]
      exact ih h

/-- Once nothing is owed, no token may follow. -/
theorem eq_nil_of_owed_zero (h : owed 0 y = some m) : y = [] := by
  cases y with
  | nil => rfl
  | cons tok y => simp at h

/-- A text that still owes a term has no whole prefix: a whole prefix owes nothing, and a token
after it would be one too many. -/
theorem not_whole_of_owed_succ (h : owed 1 (x ++ y) = some (m + 1)) : ¬Whole x := by
  intro hx
  rw [owed_append, hx, Option.bind_some] at h
  obtain rfl := eq_nil_of_owed_zero h
  simp at h

/-- **Whole texts are a prefix code**: of two whole prefixes of one list, neither is longer. -/
theorem Whole.eq_of_append_eq {x' y' : List String} (hx : Whole x) (hx' : Whole x')
    (h : x ++ y = x' ++ y') : x = x' := by
  rcases List.append_eq_append_iff.1 h with ⟨a, rfl, -⟩ | ⟨c, rfl, -⟩
  · have ha := hx'
    rw [Whole, owed_append, hx, Option.bind_some] at ha
    rw [eq_nil_of_owed_zero ha, List.append_nil]
  · have hc := hx
    rw [Whole, owed_append, hx', Option.bind_some] at hc
    rw [eq_nil_of_owed_zero hc, List.append_nil]

end Owed

/-! ### The grammar -/

/-- The grammar of program text: `Reads p t` when `t` is the tree of the tokens `p` read as far
as they go. Every operand that the tokens end before is a hole, and an operand has tokens only
when the operands before it are complete. -/
inductive Reads : List String → Term → Prop
  | hole : Reads [] hole
  | bool {tok : String} {c : Char} {tl : List Char} (h : tok.toList = c :: tl)
      (hc : c = 'T' ∨ c = 'F') : Reads [tok] (.bool (tok == "T"))
  | int {tok : String} {body : List Char} {v : Nat} (h : tok.toList = 'I' :: body)
      (hv : Numeral.read (String.ofList body) = .ok v) : Reads [tok] (.int v)
  | str {tok : String} {body : List Char} {s : String} (h : tok.toList = 'S' :: body)
      (hs : Letter.decode (String.ofList body) = .ok s) : Reads [tok] (.str s)
  | var {tok : String} {body : List Char} {x : Nat} (h : tok.toList = 'v' :: body)
      (hx : Numeral.read (String.ofList body) = .ok x) : Reads [tok] (.var x)
  | unary {tok : String} {op : List Char} {p : List String} {a : Term}
      (h : tok.toList = 'U' :: op) (ha : Reads p a) : Reads (tok :: p) (.unary (String.ofList op) a)
  | lam {tok : String} {body : List Char} {x : Nat} {p : List String} {b : Term}
      (h : tok.toList = 'L' :: body) (hx : Numeral.read (String.ofList body) = .ok x)
      (hb : Reads p b) : Reads (tok :: p) (.lam x b)
  | binary {tok : String} {op : List Char} {p q : List String} {a b : Term}
      (h : tok.toList = 'B' :: op) (ha : Reads p a) (hb : Reads q b) (hab : q ≠ [] → a.Complete) :
      Reads (tok :: (p ++ q)) (.binary (String.ofList op) a b)
  | cond {tok : String} {tl : List Char} {p q r : List String} {c a b : Term}
      (h : tok.toList = '?' :: tl) (hc : Reads p c) (ha : Reads q a) (hb : Reads r b)
      (hca : q ++ r ≠ [] → c.Complete) (hab : r ≠ [] → a.Complete) :
      Reads (tok :: (p ++ q ++ r)) (.cond c a b)

section Arity

variable {tok : String} {c : Char} {tl : List Char}

theorem arity_eq_zero (h : tok.toList = c :: tl) (hc : c = 'T' ∨ c = 'F' ∨ c = 'I' ∨ c = 'S' ∨
    c = 'v') : arity tok = some 0 := by
  rcases hc with rfl | rfl | rfl | rfl | rfl <;> simp [arity, h]

theorem arity_eq_one (h : tok.toList = c :: tl) (hc : c = 'U' ∨ c = 'L') : arity tok = some 1 := by
  rcases hc with rfl | rfl <;> simp [arity, h]

theorem arity_eq_two (h : tok.toList = 'B' :: tl) : arity tok = some 2 := by simp [arity, h]

theorem arity_eq_three (h : tok.toList = '?' :: tl) : arity tok = some 3 := by simp [arity, h]

end Arity

/-- What the text of a tree owes: nothing exactly when the tree has no hole. -/
theorem Reads.owed {p : List String} {t : Term} (h : Reads p t) :
    ∃ j, owed 1 p = some j ∧ (j = 0 ↔ t.Complete) := by
  induction h with
  | hole => exact ⟨1, rfl, by simp [Complete, Term.hole]⟩
  | bool h hc =>
    refine ⟨0, ?_, by simp [Complete]⟩
    rw [owed_cons (arity_eq_zero h (by rcases hc with rfl | rfl <;> simp)), owed_nil]
  | int h => exact ⟨0, by rw [owed_cons (arity_eq_zero h (by simp)), owed_nil], by simp [Complete]⟩
  | str h => exact ⟨0, by rw [owed_cons (arity_eq_zero h (by simp)), owed_nil], by simp [Complete]⟩
  | var h => exact ⟨0, by rw [owed_cons (arity_eq_zero h (by simp)), owed_nil], by simp [Complete]⟩
  | unary h _ ih =>
    obtain ⟨j, hj, hc⟩ := ih
    exact ⟨j, by rw [owed_cons (arity_eq_one h (by simp)), hj], hc⟩
  | lam h _ _ ih =>
    obtain ⟨j, hj, hc⟩ := ih
    exact ⟨j, by rw [owed_cons (arity_eq_one h (by simp)), hj], hc⟩
  | @binary tok op p q a b h _ _ hab iha ihb =>
    obtain ⟨ja, hja, hca⟩ := iha
    rw [owed_cons (arity_eq_two h), owed_append, show (0 + 2 : Nat) = 1 + 1 from rfl,
      owed_add hja 1, Option.bind_some]
    -- the second operand is read only once the first is complete
    by_cases ha : a.Complete
    · obtain rfl : ja = 0 := hca.2 ha
      obtain ⟨jb, hjb, hcb⟩ := ihb
      exact ⟨jb, hjb, by simp [Complete, ha, hcb]⟩
    · obtain rfl : q = [] := List.eq_nil_iff_forall_not_mem.2 fun x hx =>
        ha (hab (List.ne_nil_of_mem hx))
      exact ⟨ja + 1, by simp, by simp [Complete, ha]⟩
  | @cond tok tl p q r c a b h _ _ _ hca hab ihc iha ihb =>
    obtain ⟨jc, hjc, hcc⟩ := ihc
    rw [owed_cons (arity_eq_three h), List.append_assoc, owed_append,
      show (0 + 3 : Nat) = 1 + 2 from rfl, owed_add hjc 2, Option.bind_some]
    by_cases hc : c.Complete
    · obtain rfl : jc = 0 := hcc.2 hc
      obtain ⟨ja, hja, hcA⟩ := iha
      rw [owed_append, show (0 + 2 : Nat) = 1 + 1 from rfl, owed_add hja 1, Option.bind_some]
      by_cases ha : a.Complete
      · obtain rfl : ja = 0 := hcA.2 ha
        obtain ⟨jb, hjb, hcb⟩ := ihb
        exact ⟨jb, hjb, by simp [Complete, hc, ha, hcb]⟩
      · obtain rfl : r = [] := List.eq_nil_iff_forall_not_mem.2 fun x hx =>
          ha (hab (List.ne_nil_of_mem hx))
        exact ⟨ja + 1, by simp, by simp [Complete, ha]⟩
    · obtain ⟨rfl, rfl⟩ : q = [] ∧ r = [] := List.append_eq_nil_iff.1
        (List.eq_nil_iff_forall_not_mem.2 fun x hx => hc (hca (List.ne_nil_of_mem hx)))
      exact ⟨jc + 2, by simp, by simp [Complete, hc]⟩

/-- The text of a tree without holes is whole. -/
theorem Reads.whole {p : List String} {t : Term} (h : Reads p t) (ht : t.Complete) : Whole p := by
  obtain ⟨j, hj, hc⟩ := h.owed
  rwa [Whole, hj, Option.some_inj, hc]

/-- The text of a tree with a hole has no whole prefix. -/
theorem Reads.not_whole {p : List String} {t : Term} (h : Reads p t) (ht : ¬t.Complete)
    {x y : List String} (hp : p = x ++ y) : ¬Whole x := by
  obtain ⟨j, hj, hc⟩ := h.owed
  obtain ⟨i, rfl⟩ : ∃ i, j = i + 1 := ⟨j - 1, by have := mt hc.1 ht; omega⟩
  exact not_whole_of_owed_succ (hp ▸ hj)

/-! ### Reading follows the grammar -/

/-- With a step of fuel for each token, reading gives a tree of a prefix of the tokens and the
tokens after it; the tree has a hole only when no token is left. -/
theorem readN_reads {n : Nat} {ts : List String} {t : Term} {r : List String}
    (h : readN n ts = .ok (t, r)) (hn : ts.length ≤ n) :
    ∃ p, ts = p ++ r ∧ Reads p t ∧ (t.Complete ∨ r = []) := by
  induction n generalizing ts t r with
  | zero =>
    obtain rfl : ts = [] := List.eq_nil_of_length_eq_zero (by omega)
    simp only [readN, Except.ok.injEq, Prod.mk.injEq] at h
    obtain ⟨rfl, rfl⟩ := h
    exact ⟨[], rfl, .hole, .inr rfl⟩
  | succ n ih =>
    cases ts with
    | nil =>
      simp only [readN, Except.ok.injEq, Prod.mk.injEq] at h
      obtain ⟨rfl, rfl⟩ := h
      exact ⟨[], rfl, .hole, .inr rfl⟩
    | cons tok rest =>
      have hrest : rest.length ≤ n := by simp at hn; omega
      rcases readN_ok_cases h with ⟨⟨tl, htl⟩, rfl, rfl⟩ | ⟨body, v, hb, hv, rfl, rfl⟩ |
        ⟨body, s, hb, hs, rfl, rfl⟩ | ⟨op, a, he, ha, rfl⟩ | ⟨op, a, b, r₁, he, ha, hb, rfl⟩ |
        ⟨body, x, b, he, hx, hb, rfl⟩ | ⟨body, x, he, hx, rfl, rfl⟩ |
        ⟨tl, c, a, b, r₁, r₂, he, hc, ha, hb, rfl⟩
      · rcases htl with htl | htl
        · exact ⟨[tok], rfl, .bool htl (.inl rfl), .inl trivial⟩
        · exact ⟨[tok], rfl, .bool htl (.inr rfl), .inl trivial⟩
      · exact ⟨[tok], rfl, .int hb hv, .inl trivial⟩
      · exact ⟨[tok], rfl, .str hb hs, .inl trivial⟩
      · obtain ⟨p, rfl, hp, hc⟩ := ih ha hrest
        exact ⟨tok :: p, rfl, .unary he hp, hc⟩
      · obtain ⟨p, rfl, hp, hca⟩ := ih ha hrest
        obtain ⟨q, rfl, hq, hcb⟩ := ih hb (by simp at hrest; omega)
        refine ⟨tok :: (p ++ q), by simp, .binary he hp hq fun hq' => ?_, ?_⟩
        · exact hca.resolve_right fun h => hq' (List.append_eq_nil_iff.1 h).1
        · -- a hole in either operand means the tokens ran out there
          by_cases ha : a.Complete
          · by_cases hb : b.Complete
            · exact .inl ⟨ha, hb⟩
            · exact .inr (hcb.resolve_left hb)
          · exact .inr (List.append_eq_nil_iff.1 (hca.resolve_left ha)).2
      · obtain ⟨p, rfl, hp, hc⟩ := ih hb hrest
        exact ⟨tok :: p, rfl, .lam he hx hp, hc⟩
      · exact ⟨[tok], rfl, .var he hx, .inl trivial⟩
      · obtain ⟨p, rfl, hp, hcc⟩ := ih hc hrest
        obtain ⟨q, rfl, hq, hca⟩ := ih ha (by simp at hrest; omega)
        obtain ⟨u, rfl, hu, hcb⟩ := ih hb (by simp at hrest; omega)
        refine ⟨tok :: (p ++ q ++ u), by simp, .cond he hp hq hu (fun h' => ?_) (fun h' => ?_), ?_⟩
        · refine hcc.resolve_right fun h => h' ?_
          simp only [List.append_eq_nil_iff] at h ⊢
          exact ⟨h.1, h.2.1⟩
        · exact hca.resolve_right fun h => h' (List.append_eq_nil_iff.1 h).1
        · by_cases hc : c.Complete
          · by_cases ha : a.Complete
            · by_cases hb : b.Complete
              · exact .inl ⟨hc, ha, hb⟩
              · exact .inr (hcb.resolve_left hb)
            · exact .inr (List.append_eq_nil_iff.1 (hca.resolve_left ha)).2
          · have := hcc.resolve_left hc
            simp only [List.append_eq_nil_iff] at this
            exact .inr this.2.2

/-- The grammar gives what reading returns: reading the text of a tree, with a step of fuel for
each token, gives the tree and the tokens after it, when the tree has no hole or no token
follows. -/
theorem readN_of_reads {p : List String} {t : Term} (h : Reads p t) {r : List String}
    (hr : t.Complete ∨ r = []) {n : Nat} (hn : p.length ≤ n) : readN n (p ++ r) = .ok (t, r) := by
  induction h generalizing r n with
  | hole =>
    obtain rfl : r = [] := hr.resolve_left (by simp [Complete, Term.hole])
    cases n <;> rfl
  | bool h hc =>
    obtain ⟨m, rfl⟩ : ∃ m, n = m + 1 := ⟨n - 1, by simp at hn; omega⟩
    rcases hc with rfl | rfl <;> simp [readN, h]
  | int h hv =>
    obtain ⟨m, rfl⟩ : ∃ m, n = m + 1 := ⟨n - 1, by simp at hn; omega⟩
    simp [readN, h, hv]
  | str h hs =>
    obtain ⟨m, rfl⟩ : ∃ m, n = m + 1 := ⟨n - 1, by simp at hn; omega⟩
    simp [readN, h, hs]
  | var h hx =>
    obtain ⟨m, rfl⟩ : ∃ m, n = m + 1 := ⟨n - 1, by simp at hn; omega⟩
    simp [readN, h, hx]
  | unary h _ ih =>
    obtain ⟨m, rfl⟩ : ∃ m, n = m + 1 := ⟨n - 1, by simp at hn; omega⟩
    simp [readN, h, ih hr (by simp at hn; omega)]
  | lam h hx _ ih =>
    obtain ⟨m, rfl⟩ : ∃ m, n = m + 1 := ⟨n - 1, by simp at hn; omega⟩
    simp [readN, h, hx, ih hr (by simp at hn; omega)]
  | @binary tok op p q a b h _ _ hab iha ihb =>
    obtain ⟨m, rfl⟩ : ∃ m, n = m + 1 := ⟨n - 1, by simp at hn; omega⟩
    simp only [List.length_cons, List.length_append] at hn
    -- the first operand stops where the second starts: it is complete, or nothing follows it
    have ha : a.Complete ∨ q ++ r = [] := by
      by_cases hq : q = []
      · rcases hr with hr | rfl
        · exact .inl hr.1
        · exact .inr (by simp [hq])
      · exact .inl (hab hq)
    have hb : b.Complete ∨ r = [] := hr.imp_left And.right
    simp [readN, h, iha ha (n := m) (by omega), ihb hb (n := m) (by omega)]
  | @cond tok tl p q u c a b h _ _ _ hca hab ihc iha ihb =>
    obtain ⟨m, rfl⟩ : ∃ m, n = m + 1 := ⟨n - 1, by simp at hn; omega⟩
    simp only [List.length_cons, List.length_append] at hn
    have hc : c.Complete ∨ q ++ (u ++ r) = [] := by
      by_cases hqu : q ++ u = []
      · rcases hr with hr | rfl
        · exact .inl hr.1
        · exact .inr (by simp [hqu])
      · exact .inl (hca hqu)
    have ha : a.Complete ∨ u ++ r = [] := by
      by_cases hu : u = []
      · rcases hr with hr | rfl
        · exact .inl hr.2.1
        · exact .inr (by simp [hu])
      · exact .inl (hab hu)
    have hb : b.Complete ∨ r = [] := hr.imp_left fun h => h.2.2
    simp [readN, h, ihc hc (n := m) (by omega), iha ha (n := m) (by omega),
      ihb hb (n := m) (by omega)]

/-- A text has one tree. -/
theorem Reads.unique {p : List String} {t t' : Term} (h : Reads p t) (h' : Reads p t') :
    t' = t := by
  have e := readN_of_reads h (.inr rfl) (Nat.le_refl _)
  rw [readN_of_reads h' (.inr rfl) (Nat.le_refl _), Except.ok.injEq, Prod.mk.injEq] at e
  exact e.1

/-! ### What reading returns -/

/-- **Reading takes the whole prefix.** When reading a list of tokens succeeds, it returns a
tree `t` and the tokens `rest` after a prefix `p`, and `t` is the one tree of `p`. Either `p` is
whole, `t` has no hole and every whole prefix of the tokens is `p`, so `p` is the shortest; or
no prefix of the tokens is whole, `p` is all of them, nothing is left, and `t` has a hole in
place of each missing operand. -/
theorem read_whole_prefix {toks : List String} {t : Term} {rest : List String}
    (h : read toks = .ok (t, rest)) :
    ∃ p, toks = p ++ rest ∧ Reads p t ∧ (∀ t', Reads p t' → t' = t) ∧
      ((Whole p ∧ t.Complete ∧ ∀ p' q, toks = p' ++ q → Whole p' → p' = p) ∨
        (rest = [] ∧ ¬t.Complete ∧ ∀ p' q, toks = p' ++ q → ¬Whole p')) := by
  obtain ⟨p, rfl, hp, hc⟩ := readN_reads h (Nat.le_refl _)
  refine ⟨p, rfl, hp, fun t' h' => hp.unique h', ?_⟩
  by_cases ht : t.Complete
  · exact .inl ⟨hp.whole ht, ht, fun p' q e hw => ((hp.whole ht).eq_of_append_eq hw e).symm⟩
  · obtain rfl := hc.resolve_left ht
    exact .inr ⟨rfl, ht, fun p' q e => hp.not_whole ht (by simpa using e)⟩

/-- `B+ I" U- I# T`: the sum of `1` and `-2`, with the token `T` left over. -/
theorem read_sum_then_true :
    read ["B+", "I\"", "U-", "I#", "T"] =
      .ok (.binary "+" (int 1) (.unary "-" (int 2)), ["T"]) ∧
    ∃ p, ["B+", "I\"", "U-", "I#", "T"] = p ++ ["T"] ∧
      Reads p (.binary "+" (int 1) (.unary "-" (int 2))) ∧
      (∀ t', Reads p t' → t' = .binary "+" (int 1) (.unary "-" (int 2))) ∧
      ((Whole p ∧ (Term.binary "+" (int 1) (.unary "-" (int 2))).Complete ∧
          ∀ p' q, ["B+", "I\"", "U-", "I#", "T"] = p' ++ q → Whole p' → p' = p) ∨
        (["T"] = [] ∧ ¬(Term.binary "+" (int 1) (.unary "-" (int 2))).Complete ∧
          ∀ p' q, ["B+", "I\"", "U-", "I#", "T"] = p' ++ q → ¬Whole p')) := by
  have h : read ["B+", "I\"", "U-", "I#", "T"] =
      .ok (.binary "+" (int 1) (.unary "-" (int 2)), ["T"]) := by rfl
  exact ⟨h, read_whole_prefix h⟩

end Term

end Interstellar
