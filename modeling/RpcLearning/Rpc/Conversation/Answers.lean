import RpcLearning.Lib.Firsts
import RpcLearning.Rpc.Conversation

/-!
# Every call answered once

What client and server have done so far accounts for the bytes that are on their way, and every
step of theirs goes on with the account: procedures are started once for each call and in order,
callbacks run once, with the first results of their own calls.
-/

namespace RpcLearning.Rpc

open Json Net Frames
open Framing (body)
open BaseClient (Registered)

/-! ## The invariant -/

section Coherent

variable {π ν κ : Type}

/-- What is started for a call. -/
def Starts (server : RpcServer π ν) (r : Registered κ) (started : Started π ν) : Prop :=
  ∃ callBack, Serves server r.call callBack ∧ started = .call callBack r.request

/-- The frames of `done` have been read and taken out of the buffer, which holds the beginning of
the next one. -/
structure Taken (read : Bytes) (buffer : Buffer) (done rest : List Bytes) : Prop where
  read : read = encodeAll frame done ++ buffer.readable
  beginning : Partial frame rest buffer.readable

theorem Taken.start : Taken [] (Buffer.new kInitialSize) [] [] where
  read := (Buffer.readable_new kInitialSize).symm
  beginning := by
    rw [Buffer.readable_new]
    exact .nil []

/-- What comes next is a beginning of what has not been taken. -/
theorem Taken.prefix {read data : Bytes} {buffer : Buffer} {done rest : List Bytes}
    (h : Taken read buffer done rest) (hd : read ++ data <+: encodeAll frame (done ++ rest)) :
    buffer.readable ++ data <+: encodeAll frame rest := by
  rw [h.read, encodeAll_append, List.append_assoc] at hd
  exact (List.prefix_append_right_inj _).mp hd

theorem Taken.more {read : Bytes} {buffer : Buffer} {done rest : List Bytes}
    (h : Taken read buffer done rest) (texts : List Bytes) :
    Taken read buffer done (rest ++ texts) :=
  ⟨h.read, h.beginning.append texts⟩

theorem getElem?_append_of_some {α : Type} {l : List α} {k : Nat} {a : α} (h : l[k]? = some a)
    (l' : List α) : (l ++ l')[k]? = some a := by
  rw [List.getElem?_append_left (List.getElem?_eq_some_iff.mp h).1, h]

theorem exists_of_getElem? {α β : Type} {R : α → β → Prop} {l : List α} {l' : List β}
    (h : List.Forall₂ R l l') {k : Nat} {b : β} (hb : l'[k]? = some b) :
    ∃ a, l[k]? = some a ∧ R a b := by
  induction h generalizing k with
  | nil => cases hb
  | cons hab _ ih =>
      cases k with
      | zero =>
          cases hb
          exact ⟨_, rfl, hab⟩
      | succ k => exact ih hb

/-- The results that the callbacks are given: the first one for each call. -/
def firstResults (dones : List (Registered κ × Value)) : List (Registered κ × Value) :=
  firsts (fun q ↦ q.1.id) dones

theorem firstResults_append_singleton (dones : List (Registered κ × Value))
    (q : Registered κ × Value) :
    firstResults (dones ++ [q]) =
      if q.1.id ∈ (firstResults dones).map (fun q ↦ q.1.id) then firstResults dones
      else firstResults dones ++ [q] := firsts_append_singleton dones q

variable [DoubleText]

/-- The text of the response to a call with a result. -/
def replyText (q : Registered κ × Value) : Bytes := text (responseObject q.1.id q.2)

/-- `calls` are the calls made, those of `made` and those that callbacks have made; and `dones` are
the results given, of which `results` tells the places of their calls. -/
structure Coherent (react : κ → Value → Bool → List (Call × κ)) (server : RpcServer π ν)
    (made : List (Call × κ)) (results : List (Nat × Value)) (calls : List (Registered κ))
    (dones : List (Registered κ × Value)) (v : Conversation π ν κ) : Prop where
  made : (calls.map fun r ↦ (r.call, r.callback)).Perm
    (made ++ v.client.invoked.flatMap fun q ↦ react q.1 q.2.1 q.2.2)
  serves : ∀ r ∈ calls, (∃ callBack, Serves server r.call callBack) ∧
    r.text.length + 2 < BaseServer.kMaxMessageLen
  requests : ∃ done rest, calls = done ++ rest ∧ List.Forall₂ (Starts server) done v.started ∧
    Taken v.serverRead v.serverBuffer (done.map Registered.text) (rest.map Registered.text)
  results : List.Forall₂ (fun a q ↦ calls[a.1]? = some q.1 ∧ q.2 = a.2) results dones
  fits : ∀ q ∈ dones, q.2.WellFormed ∧ Plain q.2 ∧
    (replyText q).length + 2 < BaseClient.kMaxMessageLen
  replies : v.replies = dones.map fun q ↦ frame (replyText q)
  responses : ∃ done rest, dones = done ++ rest ∧
    Taken v.clientRead v.clientBuffer (done.map replyText) (rest.map replyText) ∧
    Awaits calls ((firstResults done).map fun q ↦ q.1.id) v.client ∧
    v.client.invoked = (firstResults done).map fun q ↦ (q.1.callback, q.2, false)

variable {react : κ → Value → Bool → List (Call × κ)} {server : RpcServer π ν}
  {made : List (Call × κ)} {results : List (Nat × Value)} {calls : List (Registered κ)}
  {dones : List (Registered κ × Value)} {v : Conversation π ν κ}

/-- The client goes on, and has made the calls `calls'` meanwhile. -/
theorem Coherent.goOn (h : Coherent react server made results calls dones v)
    {made' : List (Call × κ)} {calls' : List (Registered κ)}
    (hserves : ∀ r ∈ calls', (∃ callBack, Serves server r.call callBack) ∧
      r.text.length + 2 < BaseServer.kMaxMessageLen) {c : BaseClient κ} {b : Buffer} {read : Bytes}
    (hresp : ∃ done rest, dones = done ++ rest ∧
      Taken read b (done.map replyText) (rest.map replyText) ∧
      Awaits (calls ++ calls') ((firstResults done).map fun q ↦ q.1.id) c ∧
      c.invoked = (firstResults done).map fun q ↦ (q.1.callback, q.2, false))
    (hmade : (made ++ v.client.invoked.flatMap (fun q ↦ react q.1 q.2.1 q.2.2) ++
      calls'.map fun r ↦ (r.call, r.callback)).Perm
        (made' ++ c.invoked.flatMap fun q ↦ react q.1 q.2.1 q.2.2)) :
    Coherent react server made' results (calls ++ calls') dones
      { v with client := c, clientBuffer := b, clientRead := read } where
  made := by
    rw [List.map_append]
    exact (h.made.append_right _).trans hmade
  serves r hr := by
    rcases List.mem_append.mp hr with hr | hr
    · exact h.serves r hr
    · exact hserves r hr
  requests := by
    obtain ⟨done, rest, rfl, hst, htk⟩ := h.requests
    refine ⟨done, rest ++ calls', List.append_assoc .., hst, ?_⟩
    rw [List.map_append]
    exact htk.more _
  results := h.results.imp fun a q hq ↦ ⟨getElem?_append_of_some hq.1 _, hq.2⟩
  fits := h.fits
  replies := h.replies
  responses := hresp

theorem Coherent.sendCall (h : Coherent react server made results calls dones v) {call : Call}
    {cb : κ} (hp : v.Proper server (.sendCall call cb)) :
    ∃ v', v.perform react server (.sendCall call cb) = .ok v' ∧
      (v'.client.sent.length ≤ 2 ^ 31 → Coherent react server (made ++ [(call, cb)]) results
        (calls ++ [⟨v.client.id_, call, cb⟩]) dones v') := by
  obtain ⟨done, rest, hd, htk, haw, hinv⟩ := h.responses
  have hsend := BaseClient.sendCall_eq call cb v.client
  refine ⟨_, by rw [Conversation.perform, hsend, Exec.ok_bind], fun hn ↦ ?_⟩
  have hcalls : calls.length = v.client.sent.length := by simp [haw.sent]
  have hn : (v.client.sent ++ [_]).length ≤ 2 ^ 31 := hn
  rw [List.length_append, List.length_singleton] at hn
  obtain ⟨w, c', hs, hi, haw'⟩ := haw.sendCall (by omega) call cb
  rw [hsend] at hs
  cases hs
  refine h.goOn ?_ ⟨done, rest, hd, htk, haw', hinv⟩ ?_
  · intro r hr
    rw [List.mem_singleton.mp hr]
    exact hp
  · rw [List.append_assoc, List.append_assoc]
    exact List.perm_append_comm.append_left _

theorem Coherent.serverRead (h : Coherent react server made results calls dones v) {data : Bytes}
    (he : v.enabled (.serverRead data)) :
    ∃ v', v.perform react server (.serverRead data) = .ok v' ∧ v'.client = v.client ∧
      v'.serverRead = v.serverRead ++ data ∧ v'.clientRead = v.clientRead ∧
      Coherent react server made results calls dones v' := by
  obtain ⟨done, rest, rfl, hst, htk⟩ := h.requests
  obtain ⟨_, _, _, _, haw, _⟩ := h.responses
  have hpre : v.serverRead ++ data <+:
      encodeAll frame (done.map Registered.text ++ rest.map Registered.text) := by
    rw [← List.map_append, ← Registered.flatten_message, ← haw.sent]
    exact he.2
  obtain ⟨y, hy⟩ := htk.prefix hpre
  obtain ⟨ts, rest', p, hsplit, hts, hpart⟩ := exists_split hy
  obtain ⟨now, later, rfl, rfl, rfl⟩ := List.map_eq_append_iff.mp hsplit
  obtain ⟨b, hb, hread⟩ := Buffer.exists_append data v.serverBuffer
  have hret : ∀ r ∈ now, ∃ started, Starts server r started ∧
      ∀ log, server.handleRequest (body r.text) log = .ok (log ++ [started], none) := by
    intro r hr
    obtain ⟨⟨callBack, hs⟩, -⟩ := h.serves r (by simp [hr])
    exact ⟨_, ⟨callBack, hs, rfl⟩, hs.handleRequest⟩
  have hlen : ∀ t ∈ now.map Registered.text ++ later.map Registered.text,
      t.length + 2 < BaseServer.kMaxMessageLen := by
    intro t ht
    rw [← List.map_append] at ht
    obtain ⟨r, hr, rfl⟩ := List.mem_map.mp ht
    exact (h.serves r (List.mem_append_right _ hr)).2
  have hfuel : (now.map Registered.text).length < b.readableBytes + 1 := by
    have := Framing.length_le_encodeAll_frame (now.map Registered.text)
    rw [← Buffer.length_readable, hread, hts, List.length_append]
    omega
  have hnil : Calls server.handleRequest v.started [] (.ok (v.started, none)) := .nil
  rcases Framing.messageLoop_frames BaseServer.takesBody_framing (by decide) hlen hpart hfuel hnil
      (hread.trans hts) with
    ⟨s', b', hrun, hcalls, hbp⟩ | ⟨d, left, b', r, hd, hstop, -, hcalls, -⟩
  · rw [List.nil_append, List.map_map] at hcalls
    obtain ⟨started, hstarted, heq⟩ := hcalls.appends hret
    cases heq
    have hon : BaseServer.onMessage server.handleRequest (v.started, b) =
        .ok ((v.started ++ started, b'), none) := by
      rcases BaseServer.onMessage_of_handleMessage (s := (v.started, b)) hrun with
        ⟨e, he', -⟩ | ⟨-, hon⟩
      · cases he'
      · exact hon
    refine ⟨{ v with
        serverBuffer := b', serverRead := v.serverRead ++ data, started := v.started ++ started,
        replies := v.replies ++ [] }, ?_, rfl, rfl, rfl, ?_⟩
    · rw [Conversation.perform, hb, Exec.ok_bind, hon, Exec.ok_bind]
      rfl
    · refine ⟨h.made, h.serves, ⟨done ++ now, later, by rw [List.append_assoc],
        List.rel_append hst hstarted, ?_, ?_⟩, h.results, h.fits, ?_, h.responses⟩
      · rw [htk.read, List.append_assoc, hts, List.map_append, encodeAll_append, hbp,
          List.append_assoc]
      · rw [hbp]
        exact hpart
      · rw [← h.replies]
        exact List.append_nil _
  · -- each of the calls returns
    rw [List.nil_append] at hcalls
    obtain ⟨s', hs'⟩ := hcalls.returns fun x hx s ↦ by
      obtain ⟨t, ht, rfl⟩ := List.mem_map.mp hx
      obtain ⟨r, hr, rfl⟩ := List.mem_map.mp (hd ▸ List.mem_append_left left ht)
      obtain ⟨started, -, hr'⟩ := hret r hr
      exact ⟨_, hr' s⟩
    exact absurd hs' (hstop s')

theorem Coherent.done (h : Coherent react server made results calls dones v) {k : Nat}
    {result : Value} (he : v.enabled (.done k result)) (hp : v.Proper server (.done k result)) :
    ∃ v' r, v.perform react server (.done k result) = .ok v' ∧ v'.client = v.client ∧
      v'.clientRead = v.clientRead ∧ calls[k]? = some r ∧
      Coherent react server made (results ++ [(k, result)]) calls (dones ++ [(r, result)]) v' := by
  obtain ⟨callBack, request, hk⟩ := he
  obtain ⟨hw, hplain, hlen⟩ := hp
  obtain ⟨done, rest, rfl, hst, htk⟩ := h.requests
  obtain ⟨r, hr, callBack', hserves, heq⟩ := exists_of_getElem? hst hk
  cases heq
  have hresponse := hserves.userDone result
  have hshort : (replyText (r, result)).length + 2 < 2 ^ 31 :=
    (hlen _ _ _ hk hresponse).trans (by decide)
  have hc : (responseObject r.id result).Countable :=
    countable_of_length_text (lt_of_le_of_lt (Nat.le_add_right _ 2) hshort)
  refine ⟨{ v with replies := v.replies ++ [frame (replyText (r, result))] }, r, ?_, rfl, rfl,
    getElem?_append_of_some hr _, ?_⟩
  · rw [Conversation.perform]
    simp only [hk]
    rw [hresponse, Exec.ok_bind]
    show (do let message ← (do let message ← sendJson _; Except.ok (some message)); _) = _
    rw [sendJson_eq hc, Exec.ok_bind, Exec.ok_bind]
    rfl
  · refine ⟨h.made, h.serves, ⟨done, rest, rfl, hst, htk⟩, ?_, ?_, ?_, ?_⟩
    · exact List.rel_append h.results (.cons ⟨getElem?_append_of_some hr _, rfl⟩ .nil)
    · intro q hq
      rcases List.mem_append.mp hq with hq | hq
      · exact h.fits q hq
      · rw [List.mem_singleton.mp hq]
        exact ⟨hw, hplain, hlen _ _ _ hk hresponse⟩
    · rw [h.replies, List.map_append, List.map_singleton]
    · obtain ⟨done', rest', rfl, htk', haw, hinv⟩ := h.responses
      refine ⟨done', rest' ++ [(r, result)], List.append_assoc .., ?_, haw, hinv⟩
      rw [List.map_append]
      exact htk'.more _

theorem flatten_replies (dones : List (Registered κ × Value)) :
    (dones.map fun q ↦ frame (replyText q)).flatten = encodeAll frame (dones.map replyText) := by
  rw [encodeAll, List.flatMap_map]
  rfl

theorem encodeAll_replies_append_singleton (dones : List (Registered κ × Value))
    (q : Registered κ × Value) :
    encodeAll frame ((dones ++ [q]).map replyText) =
      encodeAll frame (dones.map replyText) ++ frame (replyText q) := by
  rw [List.map_append, encodeAll_append]
  exact congrArg (_ ++ ·) (List.append_nil _)

theorem flatten_take_replies (done rest : List (Registered κ × Value))
    (q : Registered κ × Value) :
    (((done ++ q :: rest).map fun q ↦ frame (replyText q)).take (done.length + 1)).flatten =
      encodeAll frame ((done ++ [q]).map replyText) := by
  rw [List.append_cons, List.map_append, List.take_left' (by simp), flatten_replies]

theorem Coherent.mem_calls (h : Coherent react server made results calls dones v)
    {q : Registered κ × Value} (hq : q ∈ dones) : q.1 ∈ calls := by
  obtain ⟨k, hk⟩ := List.mem_iff_getElem?.mp hq
  obtain ⟨a, -, ha, -⟩ := exists_of_getElem? h.results hk
  exact List.mem_of_getElem? ha

/-- Callbacks make good calls only. -/
def ReactsProperly (react : κ → Value → Bool → List (Call × κ)) (server : RpcServer π ν) : Prop :=
  ∀ cb value isError, ∀ q ∈ react cb value isError, (∃ callBack, Serves server q.1 callBack) ∧
    ∀ id, (Registered.text ⟨id, q.1, q.2⟩).length + 2 < BaseServer.kMaxMessageLen

theorem Coherent.clientRead (hreact : ReactsProperly react server)
    (h : Coherent react server made results calls dones v) {data : Bytes}
    (he : v.enabled (.clientRead data)) (hp : v.Proper server (.clientRead data)) :
    ∃ v', v.perform react server (.clientRead data) = .ok v' ∧ v'.replies = v.replies ∧
      v'.clientRead = v.clientRead ++ data ∧ (v'.client.sent.length ≤ 2 ^ 31 →
        ∃ calls', Coherent react server made results calls' dones v') := by
  obtain ⟨done, rest, rfl, htk, haw, hinv⟩ := h.responses
  have hpre : v.clientRead ++ data <+:
      encodeAll frame (done.map replyText ++ rest.map replyText) := by
    rw [← List.map_append, ← flatten_replies, ← h.replies]
    exact he.2
  have hnext := htk.prefix hpre
  have hfits : ∀ t ∈ rest.map replyText, BaseClient.Fits t := by
    intro t ht
    obtain ⟨q, hq, rfl⟩ := List.mem_map.mp ht
    exact (h.fits q (List.mem_append_right _ hq)).2.2
  cases rest with
  | nil =>
      have hnil := List.prefix_nil.mp hnext
      exact absurd (List.append_eq_nil_iff.mp hnil).2 he.1
  | cons q rest =>
      -- the chunk ends at the end of the next response, or before it
      have hne : frame (replyText q) ≠ [] := by simp [frame, crlf]
      have hlt := htk.beginning.length_lt hne
      have hle : (v.clientBuffer.readable ++ data).length ≤ (frame (replyText q)).length := by
        have hbound := hp (done.length + 1)
        rw [h.replies, flatten_take_replies, encodeAll_replies_append_singleton, htk.read,
          List.length_append, List.length_append] at hbound
        rw [List.append_assoc, List.length_append] at hbound
        omega
      obtain ⟨y, hy⟩ := List.prefix_of_prefix_length_le hnext (List.prefix_append _ _) hle
      by_cases hy0 : y = []
      · subst hy0
        rw [List.append_nil] at hy
        obtain ⟨hw, hplain, hfit⟩ := h.fits q (by simp)
        obtain ⟨c, hc, hafter⟩ :=
          haw.exists_handleResponse react (h.mem_calls (q := q) (by simp)) hw hplain
        obtain ⟨b, hempty, hok, -⟩ := BaseClient.receive_of_handleResponse react
          (s := (v.client, v.clientBuffer)) (r := []) hfit (by rw [hy, List.append_nil])
        rw [List.append_nil] at hok
        refine ⟨{ v with client := c, clientBuffer := b, clientRead := v.clientRead ++ data },
          by rw [Conversation.perform, hok c none hc]; rfl, rfl, rfl, fun hn ↦ ?_⟩
        have hread : Taken (v.clientRead ++ data) b ((done ++ [q]).map replyText)
            (rest.map replyText) := by
          refine ⟨?_, by rw [hempty]; exact .nil _⟩
          rw [htk.read, List.append_assoc, hy, hempty, List.append_nil,
            encodeAll_replies_append_singleton]
        have hdones : done ++ q :: rest = (done ++ [q]) ++ rest := by simp
        have hfirst := firstResults_append_singleton done q
        have hafter := hafter hn
        split at hafter
        · -- the call has been answered before
          rename_i hold
          obtain ⟨hi, haw'⟩ := hafter
          rw [if_pos hold] at hfirst
          refine ⟨calls ++ [], h.goOn (by simp) ⟨done ++ [q], rest, hdones, hread, ?_, ?_⟩ ?_⟩
          · rw [List.append_nil, hfirst]
            exact haw'
          · rw [hi, hinv, hfirst]
          · rw [hi]
            simp
        · rename_i hnew
          obtain ⟨calls', hi, hmore, haw'⟩ := hafter
          rw [if_neg hnew] at hfirst
          refine ⟨calls ++ calls', h.goOn ?_ ⟨done ++ [q], rest, hdones, hread, ?_, ?_⟩ ?_⟩
          · intro r hr
            have hm : (r.call, r.callback) ∈ react q.1.callback q.2 false := by
              rw [← hmore]
              exact List.mem_map_of_mem (f := fun r : Registered κ ↦ (r.call, r.callback)) hr
            exact ⟨(hreact _ _ _ _ hm).1, (hreact _ _ _ _ hm).2 r.id⟩
          · rw [hfirst, List.map_append]
            exact haw'
          · rw [hi, hinv, hfirst, List.map_append]
            rfl
          · rw [hmore, hi, List.flatMap_append, List.append_assoc]
            simp
      · obtain ⟨b, hr, hread⟩ := BaseClient.receive_of_partial react
          (s := (v.client, v.clientBuffer)) hfits (.cons hy.symm hy0)
        refine ⟨{ v with clientBuffer := b, clientRead := v.clientRead ++ data },
          by rw [Conversation.perform, hr]; rfl, rfl, rfl, fun _ ↦ ?_⟩
        refine ⟨calls ++ [], h.goOn (by simp) ⟨done, q :: rest, rfl, ?_, ?_, hinv⟩ (by simp)⟩
        · refine ⟨by rw [htk.read, hread, List.append_assoc], ?_⟩
          rw [hread]
          exact .cons hy.symm hy0
        · rw [List.append_nil]
          exact haw

theorem Coherent.step (hreact : ReactsProperly react server)
    (h : Coherent react server made results calls dones v) {a : ConversationStep κ}
    (he : v.enabled a) (hp : v.Proper server a) :
    ∃ v', v.perform react server a = .ok v' ∧ (v'.client.sent.length ≤ 2 ^ 31 →
      ∃ calls' dones', Coherent react server (made ++ [a].filterMap ConversationStep.call?)
        (results ++ [a].filterMap ConversationStep.result?) calls' dones' v') := by
  cases a with
  | sendCall call cb =>
      obtain ⟨v', hv, hc⟩ := h.sendCall hp
      exact ⟨v', hv, fun hn ↦ ⟨_, dones, (List.append_nil results).symm ▸ hc hn⟩⟩
  | serverRead data =>
      obtain ⟨v', hv, -, -, -, hc⟩ := h.serverRead he
      exact ⟨v', hv, fun _ ↦ ⟨calls, dones,
        (List.append_nil made).symm ▸ (List.append_nil results).symm ▸ hc⟩⟩
  | done k result =>
      obtain ⟨v', r, hv, -, -, -, hc⟩ := h.done he hp
      exact ⟨v', hv, fun _ ↦ ⟨calls, _, (List.append_nil made).symm ▸ hc⟩⟩
  | clientRead data =>
      obtain ⟨v', hv, -, -, hc⟩ := h.clientRead hreact he hp
      refine ⟨v', hv, fun hn ↦ ?_⟩
      obtain ⟨calls', hc⟩ := hc hn
      exact ⟨calls', dones, (List.append_nil made).symm ▸ (List.append_nil results).symm ▸ hc⟩

end Coherent

/-! ## Runs -/

section Runs

variable [DoubleText] {π ν κ : Type} {react : κ → Value → Bool → List (Call × κ)}
  {server : RpcServer π ν}

/-- Nothing is on its way. -/
structure Conversation.Drained (v : Conversation π ν κ) : Prop where
  serverRead : v.serverRead = v.client.sent.flatten
  clientRead : v.clientRead = v.replies.flatten

end Runs

end RpcLearning.Rpc
