import RpcLearning.Lib.Frames

/-!
# Receivers that take all they have

A receiver of a stream of messages waits until a message is complete, and then takes all it has
for that message.  It gets every message as it was sent exactly when every message that arrives
completely ends where a chunk ends.
-/

namespace RpcLearning.Frames

universe u v

variable {α S : Type u} {β : Type v} {encode body : α → List β}

/-- The receiver `receive` calls a handler and keeps bytes: `calls` is what it has called the
handler with, `left` is what it has kept.  It follows messages that are `Fits`, and the handler
returns for those that are `Ok`. -/
structure Greedy (encode body : α → List β) (Fits Ok : α → Prop) (calls : S → List (List β))
    (left : S → List β) (receive : S → List β → Run S) : Prop where
  ne_nil (m : α) : encode m ≠ []
  mono {s s' : S} {c : List β} (h : receive s c = .ok s') : calls s <+: calls s'
  beginning {ms : List α} {s : S} {c : List β} (hf : ∀ m ∈ ms, Fits m)
    (h : Partial encode ms (left s ++ c)) :
    ∃ s', receive s c = .ok s' ∧ calls s' = calls s ∧ left s' = left s ++ c
  whole {m : α} {s : S} {c : List β} (hf : Fits m) (h : left s ++ c = encode m) (ho : Ok m) :
    ∃ s', receive s c = .ok s' ∧ calls s' = calls s ++ [body m] ∧ left s' = []
  notOk {m : α} {s s' : S} {c : List β} (hf : Fits m) (h : left s ++ c = encode m)
    (hr : receive s c = .ok s') : Ok m
  glued {m : α} {s s' : S} {c r : List β} (hf : Fits m) (h : left s ++ c = encode m ++ r)
    (hr : receive s c = .ok s') : calls s ++ [body m ++ r] <+: calls s'

/-- A receiver that has kept `p` and is given `chunks` meets the end of every message of `ms`
where a chunk ends. -/
def EndsAreCuts (encode : α → List β) (Ok : α → Prop) (p : List β) (chunks : List (List β))
    (ms : List α) : Prop :=
  ∀ done rest, ms = done ++ rest → done ≠ [] → encodeAll encode done <+: p ++ chunks.flatten →
    (∃ n, p ++ (chunks.take n).flatten = encodeAll encode done) ∧ ∀ m ∈ done, Ok m

/-- No message is complete in the beginning of one. -/
theorem Partial.not_prefix {ms done rest : List α} {p : List β} (h : Partial encode ms p)
    (hne : ∀ m, encode m ≠ []) (hms : ms = done ++ rest) (hd : done ≠ []) :
    ¬ encodeAll encode done <+: p := by
  intro hp
  cases done with
  | nil => exact hd rfl
  | cons m done =>
      subst hms
      have hlt := h.length_lt (hne m)
      have hle := hp.length_le
      rw [encodeAll_cons, List.length_append] at hle
      omega

theorem endsAreCuts_nil {Ok : α → Prop} {ms : List α} {p : List β} (h : Partial encode ms p)
    (hne : ∀ m, encode m ≠ []) : EndsAreCuts encode Ok p [] ms := by
  intro done rest hms hd hp
  rw [List.flatten_nil, List.append_nil] at hp
  exact absurd hp (h.not_prefix hne hms hd)

/-- A chunk that completes no message. -/
theorem endsAreCuts_beginning {Ok : α → Prop} {ms : List α} {p c : List β} {cs : List (List β)}
    (hp : Partial encode ms p) (hne : ∀ m, encode m ≠ []) :
    EndsAreCuts encode Ok p (c :: cs) ms ↔ EndsAreCuts encode Ok (p ++ c) cs ms := by
  have hcut : ∀ done rest, ms = done ++ rest → done ≠ [] →
      ((∃ n, p ++ ((c :: cs).take n).flatten = encodeAll encode done) ↔
        ∃ n, p ++ c ++ (cs.take n).flatten = encodeAll encode done) := by
    intro done rest hms hd
    constructor
    · rintro ⟨n, hn⟩
      cases n with
      | zero =>
          rw [List.take_zero, List.flatten_nil, List.append_nil] at hn
          exact absurd (hn ▸ List.prefix_rfl) (hp.not_prefix hne hms hd)
      | succ n => exact ⟨n, by simpa using hn⟩
    · rintro ⟨n, hn⟩
      exact ⟨n + 1, by simpa using hn⟩
  simp only [EndsAreCuts, List.flatten_cons, ← List.append_assoc]
  constructor
  · intro h done rest hms hd hpre
    exact ⟨(hcut done rest hms hd).mp (h done rest hms hd hpre).1, (h done rest hms hd hpre).2⟩
  · intro h done rest hms hd hpre
    exact ⟨(hcut done rest hms hd).mpr (h done rest hms hd hpre).1, (h done rest hms hd hpre).2⟩

/-- A chunk that completes a message and ends there. -/
theorem endsAreCuts_whole {Ok : α → Prop} {m : α} {ms : List α} {p c : List β}
    {cs : List (List β)} (hp : Partial encode (m :: ms) p) (hne : ∀ m, encode m ≠ [])
    (h : p ++ c = encode m) :
    EndsAreCuts encode Ok p (c :: cs) (m :: ms) ↔ Ok m ∧ EndsAreCuts encode Ok [] cs ms := by
  rw [endsAreCuts_beginning hp hne, h]
  constructor
  · intro he
    refine ⟨(he [m] ms rfl (by simp) (by simp)).2 m (by simp), ?_⟩
    rintro done rest rfl hd hpre
    obtain ⟨⟨n, hn⟩, hok⟩ := he (m :: done) rest rfl (by simp) (by simpa using hpre)
    exact ⟨⟨n, by simpa using hn⟩, fun k hk ↦ hok k (List.mem_cons_of_mem m hk)⟩
  · rintro ⟨hm, he⟩ done rest hms hd hpre
    cases done with
    | nil => exact absurd rfl hd
    | cons m' done =>
        obtain ⟨rfl, rfl⟩ := List.cons.inj hms
        by_cases hd' : done = []
        · subst hd'
          exact ⟨⟨0, by simp⟩, by simpa using hm⟩
        · obtain ⟨⟨n, hn⟩, hok⟩ := he done rest rfl hd' (by simpa using hpre)
          exact ⟨⟨n, by simpa using hn⟩, by simpa using ⟨hm, hok⟩⟩

/-- A chunk that goes on behind the end of a message. -/
theorem not_endsAreCuts_glued {Ok : α → Prop} {m : α} {ms : List α} {p c r : List β}
    {cs : List (List β)} (hp : Partial encode (m :: ms) p) (hne : ∀ m, encode m ≠ [])
    (h : p ++ c = encode m ++ r) (hr : r ≠ []) :
    ¬ EndsAreCuts encode Ok p (c :: cs) (m :: ms) := by
  rw [endsAreCuts_beginning hp hne, h]
  intro he
  obtain ⟨⟨n, hn⟩, -⟩ := he [m] ms rfl (by simp) (by simp)
  have hpos := List.length_pos_iff.mpr hr
  have hlen := congrArg List.length hn
  simp only [encodeAll_cons, encodeAll_nil, List.length_append, List.length_nil] at hlen
  omega

namespace Greedy

variable {Fits Ok : α → Prop} {calls : S → List (List β)} {left : S → List β}
  {receive : S → List β → Run S}

/-- The receiver, given `chunks` in the state `s`, gets the complete ones of `ms` as they were
sent and keeps the beginning of the next. -/
def Exact (encode body : α → List β) (calls : S → List (List β)) (left : S → List β)
    (receive : S → List β → Run S) (s : S) (chunks : List (List β)) (ms : List α) : Prop :=
  ∃ s', chunks.foldlM receive s = .ok s' ∧ ∃ done rest, ms = done ++ rest ∧
    left s ++ chunks.flatten = encodeAll encode done ++ left s' ∧
    Partial encode rest (left s') ∧ calls s' = calls s ++ done.map body

theorem foldlM_mono (g : Greedy encode body Fits Ok calls left receive) {cs : List (List β)}
    {s s' : S} (h : cs.foldlM receive s = .ok s') : calls s <+: calls s' := by
  induction cs generalizing s with
  | nil =>
      obtain rfl : s = s' := Except.ok.inj h
      exact List.prefix_rfl
  | cons c cs ih =>
      obtain ⟨s₁, h₁, h₂⟩ := Exec.bind_eq_ok.mp h
      exact (g.mono h₁).trans (ih h₂)

/-- When a chunk goes on behind the end of a message, that message is not received as it was
sent, whatever happens later. -/
theorem not_exact_glued (g : Greedy encode body Fits Ok calls left receive) {m : α}
    {ms : List α} (hf : Fits m) {s : S} {c r : List β} {cs : List (List β)}
    (h : left s ++ c = encode m ++ r) (hr : r ≠ []) :
    ¬ Exact encode body calls left receive s (c :: cs) (m :: ms) := by
  rintro ⟨s', hrun, done, rest, hms, hx, -, hcalls⟩
  obtain ⟨s₁, h₁, h₂⟩ := Exec.bind_eq_ok.mp hrun
  obtain ⟨t, ht⟩ := (g.glued hf h h₁).trans (g.foldlM_mono h₂)
  rw [hcalls, List.append_assoc, List.append_cancel_left_eq] at ht
  cases done with
  | nil => simp at ht
  | cons m' done =>
      obtain ⟨rfl, -⟩ := List.cons.inj hms
      obtain ⟨hb, -⟩ := List.cons.inj ht
      exact hr (List.append_right_eq_self.mp hb)

/-- When a chunk ends with a message, what follows is received from there. -/
theorem exact_whole (g : Greedy encode body Fits Ok calls left receive) {m : α} {ms : List α}
    {s s' : S} {c : List β} {cs : List (List β)} (h : left s ++ c = encode m)
    (hr : receive s c = .ok s') (hcalls : calls s' = calls s ++ [body m]) (hleft : left s' = []) :
    Exact encode body calls left receive s (c :: cs) (m :: ms) ↔
      Exact encode body calls left receive s' cs ms := by
  rw [Exact, List.foldlM_cons, hr, Exec.ok_bind, List.flatten_cons, ← List.append_assoc, h, Exact,
    hleft, List.nil_append, hcalls]
  constructor
  · rintro ⟨s'', hrun, done, rest, hms, hx, hp, hc⟩
    have hmono := (g.foldlM_mono hrun).length_le
    cases done with
    | nil =>
        rw [hcalls, hc] at hmono
        simp at hmono
    | cons m' done =>
        obtain ⟨rfl, rfl⟩ := List.cons.inj hms
        rw [encodeAll_cons, List.append_assoc, List.append_cancel_left_eq] at hx
        exact ⟨s'', hrun, done, rest, rfl, hx, hp, by simpa using hc⟩
  · rintro ⟨s'', hrun, done, rest, rfl, hx, hp, hc⟩
    exact ⟨s'', hrun, m :: done, rest, rfl, by simp [hx], hp, by simpa using hc⟩

theorem exact_iff (g : Greedy encode body Fits Ok calls left receive) {ms : List α}
    (hf : ∀ m ∈ ms, Fits m) {s : S} {chunks : List (List β)} {y : List β}
    (hp : Partial encode ms (left s))
    (h : left s ++ (chunks.flatten ++ y) = encodeAll encode ms) :
    Exact encode body calls left receive s chunks ms ↔
      EndsAreCuts encode Ok (left s) chunks ms := by
  induction chunks generalizing ms s with
  | nil =>
      refine iff_of_true ⟨s, rfl, [], ms, rfl, ?_, hp, ?_⟩ (endsAreCuts_nil hp g.ne_nil)
      · simp
      · simp
  | cons c cs ih =>
      rw [List.flatten_cons, List.append_assoc, ← List.append_assoc] at h
      obtain ⟨done, rest, p, rfl, hx, hp'⟩ := exists_split h
      cases done with
      | nil =>
          -- the chunk completes nothing
          rw [encodeAll_nil, List.nil_append] at hx
          rw [← hx] at hp'
          obtain ⟨s', hr, hcalls, hleft⟩ := g.beginning hf hp'
          rw [← hleft] at h hp'
          rw [endsAreCuts_beginning hp g.ne_nil, ← hleft, ← ih hf hp' h]
          simp only [Exact, List.foldlM_cons, hr, Exec.ok_bind, List.flatten_cons, hcalls, hleft,
            List.append_assoc]
      | cons m done =>
          have hm : Fits m := hf m (by simp)
          rw [encodeAll_cons, List.append_assoc] at hx
          rw [List.cons_append] at hf hp h ⊢
          generalize done ++ rest = ms at hf hp h ⊢
          by_cases hr : encodeAll encode done ++ p = []
          · -- it ends with the message
            rw [hr, List.append_nil] at hx
            rw [encodeAll_cons, hx, List.append_cancel_left_eq] at h
            rw [endsAreCuts_whole hp g.ne_nil hx]
            by_cases ho : Ok m
            · obtain ⟨s', hs, hcalls, hleft⟩ := g.whole hm hx ho
              have hf' : ∀ k ∈ ms, Fits k := fun k hk ↦ hf k (List.mem_cons_of_mem m hk)
              have ih := ih hf' (s := s') (by rw [hleft]; exact .nil _) (by rw [hleft]; exact h)
              rw [g.exact_whole hx hs hcalls hleft, ih, hleft]
              simp only [ho, true_and]
            · refine iff_of_false ?_ fun he ↦ ho he.1
              rintro ⟨s'', hrun, -⟩
              obtain ⟨s', hs, -⟩ := Exec.bind_eq_ok.mp hrun
              exact ho (g.notOk hm hx hs)
          · -- it goes on behind the message
            exact iff_of_false (g.not_exact_glued hm hx hr)
              (not_endsAreCuts_glued hp g.ne_nil hx hr)

end Greedy

end RpcLearning.Frames
