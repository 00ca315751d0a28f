import RpcLearning.Lib.Exec

/-!
# Streams of encoded messages

A sender writes messages one after the other, each in its own encoding; a receiver gets the bytes
in chunks of any sizes.  Whatever has arrived is then the encodings of the first few messages and
a proper beginning of the next one.
-/

namespace RpcLearning.Frames

universe u v w

variable {α : Type u} {β : Type v} {encode : α → List β}

/-- Messages one after the other. -/
def encodeAll (encode : α → List β) (ms : List α) : List β := ms.flatMap encode

@[simp] theorem encodeAll_nil : encodeAll encode [] = [] := rfl

@[simp] theorem encodeAll_cons (m : α) (ms : List α) :
    encodeAll encode (m :: ms) = encode m ++ encodeAll encode ms := List.flatMap_cons

@[simp] theorem encodeAll_append (ms ms' : List α) :
    encodeAll encode (ms ++ ms') = encodeAll encode ms ++ encodeAll encode ms' :=
  List.flatMap_append

/-- Nothing, or a proper beginning of the encoding of the first message. -/
inductive Partial (encode : α → List β) : List α → List β → Prop
  | nil (ms : List α) : Partial encode ms []
  | cons {m : α} {ms : List α} {p q : List β} (h : encode m = p ++ q) (hq : q ≠ []) :
      Partial encode (m :: ms) p

/-- What has arrived of a stream splits into messages and a beginning of the next one. -/
theorem exists_split {ms : List α} {x y : List β} (h : x ++ y = encodeAll encode ms) :
    ∃ done rest p, ms = done ++ rest ∧ x = encodeAll encode done ++ p ∧
      Partial encode rest p := by
  induction ms generalizing x with
  | nil =>
      obtain ⟨rfl, -⟩ := List.append_eq_nil_iff.mp h
      exact ⟨[], [], [], rfl, rfl, .nil _⟩
  | cons m ms ih =>
      rw [encodeAll_cons] at h
      rcases List.append_eq_append_iff.mp h with ⟨q, hm, hy⟩ | ⟨x', rfl, hx⟩
      · by_cases hq : q = []
        · subst hq
          refine ⟨[m], ms, [], rfl, ?_, .nil _⟩
          simpa using hm.symm
        · exact ⟨[], m :: ms, x, rfl, rfl, .cons hm hq⟩
      · obtain ⟨done, rest, p, rfl, rfl, hp⟩ := ih hx.symm
        exact ⟨m :: done, rest, p, rfl, by simp, hp⟩

/-- A beginning is shorter than the message it begins. -/
theorem Partial.length_lt {m : α} {ms : List α} {p : List β} (h : Partial encode (m :: ms) p)
    (hm : encode m ≠ []) : p.length < (encode m).length := by
  cases h with
  | nil => exact List.length_pos_iff.mpr hm
  | cons h hq =>
      have := List.length_pos_iff.mpr hq
      rw [h, List.length_append]
      omega

/-- It stays one when messages come behind. -/
theorem Partial.append {ms : List α} {p : List β} (h : Partial encode ms p) (ms' : List α) :
    Partial encode (ms ++ ms') p := by
  cases h with
  | nil => exact .nil _
  | cons h hq => exact .cons h hq

/-! ## Calls -/

variable {S : Type u} {ε : Type w}

/-- The outcome of a call after which the caller does not go on: the program is over, or an
exception is on its way. -/
def Stopped (r : Run (S × Option ε)) : Prop := ∀ s, r ≠ .ok (s, none)

theorem stopped_error (f : Fault) : Stopped (.error f : Run (S × Option ε)) := nofun

theorem stopped_thrown (s : S) (e : ε) : Stopped (.ok (s, some e)) := nofun

/-- Every call returned, or it stopped. -/
theorem returned_or_stopped (r : Run (S × Option ε)) : (∃ s, r = .ok (s, none)) ∨ Stopped r := by
  rcases r with f | ⟨s, _ | e⟩
  · exact .inr (stopped_error f)
  · exact .inl ⟨s, rfl⟩
  · exact .inr (stopped_thrown s e)

/-- `Calls handle s xs r`: the handler is called with `xs` one after the other, starting in the
state `s`; all calls but the last return, and the last ends in `r`. -/
inductive Calls (handle : α → S → Run (S × Option ε)) (s : S) : List α → Run (S × Option ε) → Prop
  | nil : Calls handle s [] (.ok (s, none))
  | snoc {xs : List α} {s' : S} (h : Calls handle s xs (.ok (s', none))) (x : α) :
      Calls handle s (xs ++ [x]) (handle x s')

theorem calls_nil_iff {handle : α → S → Run (S × Option ε)} {s : S} {r : Run (S × Option ε)} :
    Calls handle s [] r ↔ r = .ok (s, none) := by
  constructor
  · intro h
    generalize hx : ([] : List α) = xs at h
    cases h with
    | nil => rfl
    | snoc h x => simp at hx
  · rintro rfl
    exact .nil

theorem calls_singleton_iff {handle : α → S → Run (S × Option ε)} {s : S} {x : α}
    {r : Run (S × Option ε)} : Calls handle s [x] r ↔ r = handle x s := by
  constructor
  · intro h
    generalize hx : [x] = xs at h
    cases h with
    | nil => simp at hx
    | @snoc xs s' h y =>
        rcases List.append_eq_singleton_iff.mp hx.symm with ⟨rfl, hy⟩ | ⟨-, hy⟩
        · obtain ⟨rfl, -⟩ := Prod.mk.inj (Except.ok.inj (calls_nil_iff.mp h))
          rw [(List.cons.inj hy).1]
        · cases hy
  · rintro rfl
    exact Calls.nil.snoc x

/-- The calls before the last ones have returned. -/
theorem Calls.of_append {handle : α → S → Run (S × Option ε)} {s : S} {xs ys : List α}
    {r : Run (S × Option ε)} (h : Calls handle s (xs ++ ys) r) (hy : ys ≠ []) :
    ∃ s', Calls handle s xs (.ok (s', none)) := by
  induction ys using List.reverseRecOn generalizing r with
  | nil => exact absurd rfl hy
  | append_singleton ys y ih =>
      generalize hz : xs ++ (ys ++ [y]) = zs at h
      cases h with
      | nil => simp at hz
      | @snoc zs s' h z =>
          rw [← List.append_assoc] at hz
          obtain ⟨rfl, -⟩ := List.append_inj' hz rfl
          by_cases hys : ys = []
          · subst hys
            rw [List.append_nil] at h
            exact ⟨s', h⟩
          · exact ih h hys

theorem Calls.unique {handle : α → S → Run (S × Option ε)} {s : S} {xs : List α}
    {r r' : Run (S × Option ε)} (h : Calls handle s xs r) (h' : Calls handle s xs r') : r = r' := by
  induction h generalizing r' with
  | nil => exact (calls_nil_iff.mp h').symm
  | @snoc xs s₁ h x ih =>
      generalize hz : xs ++ [x] = zs at h'
      cases h' with
      | nil => simp at hz
      | @snoc zs s₂ h₂ z =>
          obtain ⟨rfl, hx⟩ := List.append_inj' hz rfl
          obtain ⟨rfl, -⟩ := Prod.mk.inj (Except.ok.inj (ih h₂))
          rw [(List.cons.inj hx).1]

/-- Where the handler always returns, the calls do. -/
theorem Calls.returns {handle : α → S → Run (S × Option ε)} {s : S} {xs : List α}
    {r : Run (S × Option ε)} (h : Calls handle s xs r)
    (hret : ∀ x ∈ xs, ∀ s, ∃ s', handle x s = .ok (s', none)) : ∃ s', r = .ok (s', none) := by
  cases h with
  | nil => exact ⟨s, rfl⟩
  | snoc h x => exact hret x (by simp) _

/-- Where each call appends an entry to a log and returns, the calls append theirs in order. -/
theorem Calls.appends {γ : Type w} {E : Type u} {R : γ → E → Prop} {f : γ → α} {l : List γ}
    {handle : α → List E → Run (List E × Option ε)} {s : List E} {r : Run (List E × Option ε)}
    (h : Calls handle s (l.map f) r)
    (hret : ∀ a ∈ l, ∃ y, R a y ∧ ∀ s, handle (f a) s = .ok (s ++ [y], none)) :
    ∃ ys, List.Forall₂ R l ys ∧ r = .ok (s ++ ys, none) := by
  induction l using List.reverseRecOn generalizing r with
  | nil =>
      obtain rfl := calls_nil_iff.mp h
      exact ⟨[], .nil, by rw [List.append_nil]⟩
  | append_singleton l a ih =>
      rw [List.map_append, List.map_singleton] at h
      obtain ⟨s', hs'⟩ := h.of_append (by simp)
      obtain ⟨ys, hys, hs⟩ := ih hs' fun b hb ↦ hret b (List.mem_append_left _ hb)
      cases hs
      obtain ⟨y, hy, ha⟩ := hret a (by simp)
      refine ⟨ys ++ [y], List.rel_append hys (.cons hy .nil), ?_⟩
      rw [h.unique (hs'.snoc (f a)), ha, List.append_assoc]

/-- Calls with the same things one after the other stop at one of them only. -/
theorem Calls.stopped_unique {handle : α → S → Run (S × Option ε)} {s : S} {xs ys zs : List α}
    {r r' : Run (S × Option ε)} (h : Calls handle s xs r) (h' : Calls handle s ys r')
    (hr : Stopped r) (hr' : Stopped r') (hx : xs <+: zs) (hy : ys <+: zs) : xs = ys ∧ r = r' := by
  have hle : ∀ {us vs : List α} {q q' : Run (S × Option ε)}, Calls handle s us q →
      Calls handle s vs q' → Stopped q → us <+: vs → us = vs := by
    rintro us vs q q' hu hv hq ⟨ws, rfl⟩
    by_contra hne
    obtain ⟨s', hs⟩ := hv.of_append fun hw ↦ hne (by rw [hw, List.append_nil])
    exact hq s' (hu.unique hs)
  have heq : xs = ys := by
    rcases List.prefix_or_prefix_of_prefix hx hy with hp | hp
    · exact hle h h' hr hp
    · exact (hle h' h hr' hp).symm
  subst heq
  exact ⟨rfl, h.unique h'⟩

/-- A handler that also records what it is called with. -/
def recorded (handle : α → S → Run (S × Option ε)) (x : α) (s : List α × S) :
    Run ((List α × S) × Option ε) := do
  let (s', t) ← handle x s.2
  .ok ((s.1 ++ [x], s'), t)

/-- The record of calls is what they were made with. -/
theorem Calls.of_recorded {handle : α → S → Run (S × Option ε)} {s : S} {xs : List α}
    {r : Run ((List α × S) × Option ε)} (h : Calls (recorded handle) ([], s) xs r) :
    ∃ r', Calls handle s xs r' ∧ r = r'.map fun q ↦ ((xs, q.1), q.2) := by
  induction h with
  | nil => exact ⟨_, .nil, rfl⟩
  | @snoc xs s' h x ih =>
      obtain ⟨r', hc, hr⟩ := ih
      rcases r' with f | ⟨s'', t⟩
      · cases hr
      · obtain ⟨rfl, rfl⟩ := Prod.mk.inj (Except.ok.inj hr)
        refine ⟨_, hc.snoc x, ?_⟩
        cases hx : handle x s'' <;> simp [recorded, hx, Except.map]

/-! ## Receiving in chunks -/

/-- Hand chunks to a receiver until it stops. -/
def feed (receive : List β → S → Run (S × Option ε)) : List (List β) → S → Run (S × Option ε)
  | [], s => .ok (s, none)
  | c :: cs, s => do
    let (s, thrown) ← receive c s
    match thrown with
    | some e => .ok (s, some e)
    | none => feed receive cs s

theorem feed_cons_of_returned {receive : List β → S → Run (S × Option ε)} {c : List β} {s s' : S}
    (h : receive c s = .ok (s', none)) (cs : List (List β)) :
    feed receive (c :: cs) s = feed receive cs s' := by
  rw [feed, h, Exec.ok_bind]

theorem feed_cons_of_stopped {receive : List β → S → Run (S × Option ε)} {c : List β} {s : S}
    (h : Stopped (receive c s)) (cs : List (List β)) :
    feed receive (c :: cs) s = receive c s := by
  rw [feed]
  rcases hr : receive c s with f | ⟨s', _ | e⟩
  · rfl
  · exact absurd hr (h s')
  · rfl

/-- To follow a receiver through the chunks of a stream, follow it through one of them: from an
invariant of what has arrived, a chunk leads to the invariant again, or the receiver stops. -/
theorem feed_rule {receive : List β → S → Run (S × Option ε)} {stream : List β}
    {I : List β → S → Prop} {Q : List β → Run (S × Option ε) → Prop}
    (step : ∀ x c y s, x ++ (c ++ y) = stream → I x s →
      (∃ s', receive c s = .ok (s', none) ∧ I (x ++ c) s') ∨
        Stopped (receive c s) ∧ Q (x ++ c) (receive c s))
    {x y : List β} {chunks : List (List β)} {s : S} (h : x ++ (chunks.flatten ++ y) = stream)
    (hi : I x s) :
    (∃ s', feed receive chunks s = .ok (s', none) ∧ I (x ++ chunks.flatten) s') ∨
      ∃ n, Q (x ++ (chunks.take n).flatten) (feed receive chunks s) := by
  induction chunks generalizing x s with
  | nil => exact .inl ⟨s, rfl, by simpa using hi⟩
  | cons c cs ih =>
      rw [List.flatten_cons, List.append_assoc] at h
      rcases step x c (cs.flatten ++ y) s h hi with ⟨s', hr, hi'⟩ | ⟨hs, hq⟩
      · rw [feed_cons_of_returned hr]
        rw [← List.append_assoc] at h
        rcases ih h hi' with ⟨s'', hf, hi''⟩ | ⟨n, hq⟩
        · exact .inl ⟨s'', hf, by simpa using hi''⟩
        · exact .inr ⟨n + 1, by simpa using hq⟩
      · rw [feed_cons_of_stopped hs]
        exact .inr ⟨1, by simpa using hq⟩

end RpcLearning.Frames
