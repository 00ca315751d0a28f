import RpcLearning.Rpc.Procedure.Matches
import RpcLearning.Rpc.RpcServer

/-!
# What a request runs

`handleRequestSingle` runs the callback of the one procedure that a request names, if its members
are the right ones and its parameters are as declared.  Any other request is rejected, with a code
that says which of these went wrong first.
-/

namespace RpcLearning.Rpc.RpcServer

open Json

variable {π ν : Type} (server : RpcServer π ν)

/-- The id, the version and the method are what they should be, and there is no other member but
the parameters. -/
structure Envelope (request : Value) (name : Bytes) : Prop where
  id : ∃ id, request.find (lit "id") = some (.int32 id)
  version : request.find (lit "jsonrpc") = some (.string (lit "2.0"))
  method : request.find (lit "method") = some (.string name)
  members : (∀ k, request.hasMember k ↔ k ∈ [lit "id", lit "jsonrpc", lit "method"]) ∨
    ∀ k, request.hasMember k ↔ k ∈ [lit "id", lit "jsonrpc", lit "method", lit "params"]

/-- The name of a method is cut at its first dot, which is not its beginning. -/
structure Splits (name s m : Bytes) : Prop where
  eq : name = s ++ 0x2e :: m
  dotless : (0x2e : UInt8) ∉ s
  nonempty : s ≠ []

/-- The procedure that a name stands for. -/
def Names (name : Bytes) (p : Procedure π) : Prop :=
  ∃ s m service, Splits name s m ∧ m ≠ [] ∧
    OrderedMap.find s server.services_ = some service ∧
    OrderedMap.find m service.procedureReturn_ = some p

/-- A request for a procedure that exists, with parameters that pass its check. -/
def Dispatches (request : Value) (callBack : π) : Prop :=
  ∃ name p, Envelope request name ∧ server.Names name p ∧ p.validateGeneric request = .ok true ∧
    p.callBack_ = callBack

/-- A request for a procedure that exists, with other parameters. -/
def InvalidParams (request : Value) : Prop :=
  ∃ name p, Envelope request name ∧ server.Names name p ∧ p.validateGeneric request ≠ .ok true

/-- A request for a service, or for a method of a service, that does not exist, or for the method
that is reserved. -/
def NotFound (request : Value) : Prop :=
  (∃ name s m, Envelope request name ∧ Splits name s m ∧
    (OrderedMap.find s server.services_ = none ∨
      m ≠ [] ∧ ∃ service, OrderedMap.find s server.services_ = some service ∧
        OrderedMap.find m service.procedureReturn_ = none)) ∨
    (∃ id, request.find (lit "id") = some (.int32 id)) ∧
      request.find (lit "jsonrpc") = some (.string (lit "2.0")) ∧
      request.find (lit "method") = some (.string (lit "rpc."))

/-! ## The members -/

section Members

variable {ms : List (Bytes × Value)}

/-- Counting the members is enough, since none is there twice. -/
theorem forall_hasMember_iff (hs : OrderedMap.Sorted ms) (ks : List Bytes) (hk : ks.Nodup) :
    (∀ k, (Value.object ms).hasMember k ↔ k ∈ ks) ↔
      (∀ k ∈ ks, (Value.object ms).hasMember k) ∧ ms.length = ks.length := by
  have hlen : ms.length = (OrderedMap.keys ms).length := by
    rw [OrderedMap.keys, List.length_map]
  simp only [Value.hasMember_object]
  constructor
  · intro h
    have hperm := (List.perm_ext_iff_of_nodup hs.nodup_keys hk).mpr h
    exact ⟨fun k hmem ↦ (h k).mpr hmem, hlen.trans hperm.length_eq⟩
  · rintro ⟨hmem, hsize⟩ k
    have hperm := (List.subperm_of_subset hk hmem).perm_of_length_le (hlen.symm.trans hsize).le
    exact hperm.mem_iff.symm

theorem envelope_iff (hs : OrderedMap.Sorted ms) {name : Bytes} {id : Int32}
    (hid : (Value.object ms).find (lit "id") = some (.int32 id)) (hname : name ≠ lit "rpc.") :
    Envelope (.object ms) name ↔ Members 3 (.object ms) name := by
  have h3 := forall_hasMember_iff hs [lit "id", lit "jsonrpc", lit "method"] (by decide)
  have h4 := forall_hasMember_iff hs [lit "id", lit "jsonrpc", lit "method", lit "params"]
    (by decide)
  have hnot : lit "params" ∉ [lit "id", lit "jsonrpc", lit "method"] := by decide
  constructor
  · intro h
    refine ⟨h.version, h.method, hname, ?_⟩
    rcases h.members with hk | hk
    · have hp : hasParams (.object ms) = false :=
        Bool.eq_false_iff.mpr fun hp ↦ hnot ((hk _).mp hp)
      rw [hp]
      exact (h3.mp hk).2
    · have hp : hasParams (.object ms) = true := (hk _).mpr (by simp)
      rw [hp]
      exact (h4.mp hk).2
  · intro h
    have hmem : ∀ k ∈ [lit "id", lit "jsonrpc", lit "method"], (Value.object ms).hasMember k := by
      simp [Value.hasMember, hid, h.version, h.method]
    refine ⟨⟨id, hid⟩, h.version, h.method, ?_⟩
    have hsize := h.size
    cases hp : hasParams (.object ms) with
    | false =>
        rw [hp] at hsize
        exact .inl (h3.mpr ⟨hmem, hsize⟩)
    | true =>
        rw [hp] at hsize
        refine .inr (h4.mpr ⟨fun k hk ↦ ?_, hsize⟩)
        rcases List.mem_append.mp (show k ∈ [lit "id", lit "jsonrpc", lit "method"] ++
          [lit "params"] from hk) with hk | hk
        · exact hmem k hk
        · obtain rfl := List.mem_singleton.mp hk
          exact hp

end Members

/-! ## The name -/

theorem Splits.unique {name s m s' m' : Bytes} (h : Splits name s m) (h' : Splits name s' m') :
    s = s' ∧ m = m' := by
  have hidx := idxOf?_append_cons (m := m) h.dotless
  rw [← h.eq, h'.eq, idxOf?_append_cons h'.dotless] at hidx
  have hlen : s'.length = s.length := Option.some.inj hidx
  have heq : s ++ 0x2e :: m = s' ++ 0x2e :: m' := h.eq.symm.trans h'.eq
  obtain ⟨hs, hm⟩ := List.append_inj heq hlen.symm
  exact ⟨hs, (List.cons.inj hm).2⟩

theorem splits_take {name : Bytes} {pos : Nat} (h : name.idxOf? 0x2e = some pos) (hpos : pos ≠ 0) :
    Splits name (name.take pos) (name.drop (pos + 1)) := by
  obtain ⟨hlt, heq, hbefore⟩ := List.idxOf?_eq_some_iff.mp h
  refine ⟨?_, fun hmem ↦ ?_, ?_⟩
  · rw [← heq, List.getElem_cons_drop, List.take_append_drop]
  · obtain ⟨j, hj, hget⟩ := List.mem_take_iff_getElem.mp hmem
    exact hbefore j (by omega) hget
  · exact List.ne_nil_of_length_pos (by rw [List.length_take]; omega)

theorem Splits.idxOf? {name s m : Bytes} (h : Splits name s m) :
    name.idxOf? 0x2e = some s.length := by
  rw [h.eq, idxOf?_append_cons h.dotless]

/-- What `resolve` comes to. -/
theorem resolve_cases (noService unknownService noMethod : ServerException) (name : Bytes) :
    (∀ s m, ¬ Splits name s m) ∧
        server.resolve noService unknownService noMethod name = .throw noService ∨
      ∃ s m, Splits name s m ∧
        (OrderedMap.find s server.services_ = none ∧
            server.resolve noService unknownService noMethod name = .throw unknownService ∨
          ∃ service, OrderedMap.find s server.services_ = some service ∧
            (m = [] ∧ server.resolve noService unknownService noMethod name = .throw noMethod ∨
              m ≠ [] ∧ server.resolve noService unknownService noMethod name =
                .ok (service, m))) := by
  have hnone (h : ∀ pos, name.idxOf? 0x2e = some pos → pos = 0) : ∀ s m, ¬ Splits name s m := by
    intro s m hs
    exact hs.nonempty (List.length_eq_zero_iff.mp (h _ hs.idxOf?))
  unfold resolve
  cases hidx : name.idxOf? 0x2e with
  | none => exact .inl ⟨hnone (by simp [hidx]), rfl⟩
  | some pos =>
      by_cases hpos : pos = 0
      · subst hpos
        exact .inl ⟨hnone (by simp [hidx]), rfl⟩
      obtain ⟨n, rfl⟩ : ∃ n, pos = n + 1 := ⟨pos - 1, by omega⟩
      obtain ⟨hlt, -, -⟩ := List.idxOf?_eq_some_iff.mp hidx
      have hs := splits_take hidx hpos
      refine .inr ⟨_, _, hs, ?_⟩
      cases hf : OrderedMap.find (name.take (n + 1)) server.services_ with
      | none => exact .inl ⟨rfl, by simp only [hf]⟩
      | some service =>
          have hlen := List.length_drop (i := n + 1 + 1) (l := name)
          refine .inr ⟨service, rfl, ?_⟩
          by_cases hm : name.drop (n + 1 + 1) = []
          · refine .inl ⟨hm, ?_⟩
            rw [hm, List.length_nil] at hlen
            simp only [hf]
            exact if_pos (by omega)
          · refine .inr ⟨hm, ?_⟩
            have hpos' := List.length_pos_iff.mpr hm
            simp only [hf]
            rw [if_neg (by omega), if_neg (by omega)]

/-! ## Requests -/

theorem Names.ne_internal {name : Bytes} {p : Procedure π} (h : server.Names name p) :
    name ≠ lit "rpc." := by
  obtain ⟨s, m, service, hs, hm, -⟩ := h
  rintro rfl
  have hrpc : Splits (lit "rpc.") (lit "rpc") [] := ⟨rfl, by decide, by decide⟩
  exact hm (hs.unique hrpc).2

theorem Envelope.members_eq {ms : List (Bytes × Value)} (hs : OrderedMap.Sorted ms) {name : Bytes}
    (h : Envelope (.object ms) name) (hname : name ≠ lit "rpc.") :
    ∃ id, (Value.object ms).find (lit "id") = some (.int32 id) ∧ Members 3 (.object ms) name := by
  obtain ⟨id, hid⟩ := h.id
  exact ⟨id, hid, (envelope_iff hs hid hname).mp h⟩

/-- The request is rejected with a code. -/
def Rejects (request : Value) (err : Error) : Prop :=
  ∃ e, server.handleRequestSingle request = .throw (.request e) ∧ e.err = err

/-- An exception that `handleRequestSingle` throws with a code. -/
def HasCode (err : Error) (e : ServerException) : Prop := ∃ r, e = .request r ∧ r.err = err

theorem hasCode_anonymous (err : Error) (detail : Detail) :
    HasCode err (.anonymous err detail) := ⟨_, rfl, rfl⟩

variable {server}

theorem rejects_of_throw {request : Value} {err : Error} {e : ServerException} (he : HasCode err e)
    (h : server.handleRequestSingle request = .throw e) : server.Rejects request err := by
  obtain ⟨r, rfl, hr⟩ := he
  exact ⟨r, h, hr⟩

theorem handleRequestSingle_of_throw {request : Value} {e : ServerException}
    (h : validateRequest request = .throw e) : server.handleRequestSingle request = .throw e := by
  rw [handleRequestSingle, h, Exec.throw_bind]

theorem Rejects.unique {request : Value} {err err' : Error} (h : server.Rejects request err)
    (h' : server.Rejects request err') : err = err' := by
  obtain ⟨e, he, rfl⟩ := h
  obtain ⟨e', he', rfl⟩ := h'
  cases he.symm.trans he'
  rfl

theorem validateRequest_internal {request : Value} {id : Int32}
    (hid : request.find (lit "id") = some (.int32 id))
    (hversion : request.find (lit "jsonrpc") = some (.string (lit "2.0")))
    (hmethod : request.find (lit "method") = some (.string (lit "rpc."))) :
    validateRequest request = .throw
      (.request ⟨.RPC_METHOD_NOT_FOUND, .int32 id, lit "method name is internal use"⟩) := by
  have hv : findValue request (lit "id") .TYPE_INT32 = .ok (.int32 id) :=
    require_eq_ok.mpr ⟨hid, rfl⟩
  rw [validateRequest, hv, Exec.ok_bind, validateMembers, findString_eq_ok.mpr hversion,
    Exec.ok_bind, if_neg (not_not.mpr rfl), findString_eq_ok.mpr hmethod, Exec.ok_bind, if_pos rfl]

/-- With its members right, a request comes to the procedure with its name. -/
theorem handleRequestSingle_of_names {request : Value} {id : Int32} {name s m : Bytes}
    {service : Service π ν} (hid : request.find (lit "id") = some (.int32 id))
    (h : Members 3 request name) (hs : Splits name s m) (hm : m ≠ [])
    (hf : OrderedMap.find s server.services_ = some service) :
    server.handleRequestSingle request = service.callProcedureReturn m request := by
  rw [server.handleRequestSingle_of_members hid h, hs.eq,
    server.resolve_eq_ok hs.nonempty hs.dotless hm hf, Exec.ok_bind]

/-- The checks of the members, in their order. -/
theorem validateRequest_cases (request : Value) :
    (∃ e, HasCode .RPC_INVALID_REQUEST e ∧ validateRequest request = .throw e) ∨
      ∃ id, request.find (lit "id") = some (.int32 id) ∧
        (request.find (lit "jsonrpc") = some (.string (lit "2.0")) ∧
            request.find (lit "method") = some (.string (lit "rpc.")) ∨
          ∃ name, Members 3 request name) := by
  have hcode := hasCode_anonymous .RPC_INVALID_REQUEST
  have hid : Exec.Settles (HasCode .RPC_INVALID_REQUEST)
      (findValue request (lit "id") .TYPE_INT32) := settles_require (hcode _) (hcode _)
  have hstring (key : Bytes) : Exec.Settles (HasCode .RPC_INVALID_REQUEST)
      (findString request key) := settles_findString hcode
  unfold validateRequest
  rcases hid with ⟨v, hv⟩ | ⟨e, he, hv⟩
  swap
  · exact .inl ⟨e, he, by rw [hv, Exec.throw_bind]⟩
  obtain ⟨hfind, ht⟩ := require_eq_ok.mp hv
  obtain ⟨id, rfl⟩ := Value.getType_eq_int32 ht
  rw [hv, Exec.ok_bind, validateMembers]
  rcases hstring (lit "jsonrpc") with ⟨jsonrpc, hj⟩ | ⟨e, he, hj⟩
  swap
  · exact .inl ⟨e, he, by rw [hj, Exec.throw_bind]⟩
  rw [hj, Exec.ok_bind]
  by_cases hversion : jsonrpc = lit "2.0"
  swap
  · exact .inl ⟨_, ⟨_, rfl, rfl⟩, by rw [if_pos hversion]⟩
  subst hversion
  rw [if_neg (not_not.mpr rfl)]
  rcases hstring (lit "method") with ⟨name, hm⟩ | ⟨e, he, hm⟩
  swap
  · exact .inl ⟨e, he, by rw [hm, Exec.throw_bind]⟩
  rw [hm, Exec.ok_bind]
  rw [findString_eq_ok] at hj hm
  by_cases hname : name = lit "rpc."
  · subst hname
    exact .inr ⟨id, hfind, .inl ⟨hj, hm⟩⟩
  rw [if_neg hname]
  by_cases hsize : request.getSize = 3 + (hasParams request).toNat
  · exact .inr ⟨id, hfind, .inr ⟨name, hj, hm, hname, hsize⟩⟩
  · exact .inl ⟨_, ⟨_, rfl, rfl⟩, by rw [if_pos hsize]⟩

section Cases

variable {ms : List (Bytes × Value)} (hs : OrderedMap.Sorted ms)

include hs

theorem Dispatches.eq_ok {callBack : π} (h : server.Dispatches (.object ms) callBack) :
    server.handleRequestSingle (.object ms) = .ok callBack := by
  obtain ⟨name, p, henv, hnames, hvalid, rfl⟩ := h
  obtain ⟨id, hid, hmem⟩ := henv.members_eq hs hnames.ne_internal
  obtain ⟨s, m, service, hsplit, hm, hf, hp⟩ := hnames
  have hmismatch : Procedure.rejectRequest (.object ms) .RPC_INVALID_PARAMS
      (lit "params name or type mismatch") ≠ .ok () := by
    rw [Procedure.rejectRequest, Value.get_of_find hid]
    intro hreject
    cases hreject
  have hok : p.validateRequest (.object ms) = .ok () :=
    (Procedure.validate_eq_ok hmismatch).mpr hvalid
  rw [handleRequestSingle_of_names hid hmem hsplit hm hf, Service.callProcedureReturn, hp]
  show p.validateRequest (.object ms) >>= _ = _
  rw [hok, Exec.ok_bind]

theorem InvalidParams.rejects (h : server.InvalidParams (.object ms)) :
    server.Rejects (.object ms) .RPC_INVALID_PARAMS := by
  obtain ⟨name, p, henv, hnames, hvalid⟩ := h
  obtain ⟨id, hid, hmem⟩ := henv.members_eq hs hnames.ne_internal
  obtain ⟨s, m, service, hsplit, hm, hf, hp⟩ := hnames
  refine ⟨⟨.RPC_INVALID_PARAMS, .int32 id, lit "params name or type mismatch"⟩, ?_, rfl⟩
  obtain ⟨b, hb⟩ := p.exists_validateGeneric (.object ms)
  have hfalse : b = false := by
    cases b with
    | false => rfl
    | true => exact absurd hb hvalid
  rw [handleRequestSingle_of_names hid hmem hsplit hm hf, Service.callProcedureReturn, hp]
  show p.validateRequest (.object ms) >>= _ = _
  have hreject : p.validateRequest (.object ms) = Procedure.rejectRequest (.object ms)
      .RPC_INVALID_PARAMS (lit "params name or type mismatch") := by
    rw [Procedure.validateRequest, Procedure.validate]
    show (Exec.ofRun (p.validateGeneric (.object ms)) >>= _) = _
    rw [hb, hfalse]
    rfl
  rw [hreject, Procedure.rejectRequest, Value.get_of_find hid]
  rfl

theorem NotFound.rejects (h : server.NotFound (.object ms)) :
    server.Rejects (.object ms) .RPC_METHOD_NOT_FOUND := by
  have hinternal {id : Int32} (hid : (Value.object ms).find (lit "id") = some (.int32 id))
      (hversion : (Value.object ms).find (lit "jsonrpc") = some (.string (lit "2.0")))
      (hmethod : (Value.object ms).find (lit "method") = some (.string (lit "rpc."))) :
      server.Rejects (.object ms) .RPC_METHOD_NOT_FOUND :=
    ⟨_, handleRequestSingle_of_throw (validateRequest_internal hid hversion hmethod), rfl⟩
  rcases h with ⟨name, s, m, henv, hsplit, h⟩ | ⟨⟨id, hid⟩, hversion, hmethod⟩
  · by_cases hname : name = lit "rpc."
    · obtain ⟨id, hid⟩ := henv.id
      exact hinternal hid henv.version (hname ▸ henv.method)
    obtain ⟨id, hid, hmem⟩ := henv.members_eq hs hname
    rcases h with hf | ⟨hm, service, hf, hp⟩
    · refine ⟨⟨.RPC_METHOD_NOT_FOUND, .int32 id, lit "service not found"⟩, ?_, rfl⟩
      rw [server.handleRequestSingle_of_members hid hmem]
      rcases server.resolve_cases _ _ _ name with ⟨hno, -⟩ | ⟨s', m', hsplit', h⟩
      · exact absurd hsplit (hno s m)
      · obtain ⟨rfl, rfl⟩ := hsplit.unique hsplit'
        rcases h with ⟨-, h⟩ | ⟨service, hf', -⟩
        · rw [h, Exec.throw_bind]
        · cases hf.symm.trans hf'
    · refine ⟨⟨.RPC_METHOD_NOT_FOUND, .int32 id, lit "method not found"⟩, ?_, rfl⟩
      rw [handleRequestSingle_of_names hid hmem hsplit hm hf, Service.callProcedureReturn, hp]
      show Procedure.rejectRequest _ _ _ = _
      rw [Procedure.rejectRequest, Value.get_of_find hid]
      rfl
  · exact hinternal hid hversion hmethod

/-- The way of a request through its checks, in their order. -/
theorem handleRequestSingle_cases (server : RpcServer π ν) :
    (∃ callBack, server.Dispatches (.object ms) callBack) ∨ server.InvalidParams (.object ms) ∨
      server.NotFound (.object ms) ∨ server.Rejects (.object ms) .RPC_INVALID_REQUEST := by
  rcases validateRequest_cases (.object ms) with ⟨e, he, h⟩ | ⟨id, hid, ⟨hj, hm⟩ | ⟨name, h⟩⟩
  · exact .inr (.inr (.inr (rejects_of_throw he (handleRequestSingle_of_throw h))))
  · exact .inr (.inr (.inl (.inr ⟨⟨id, hid⟩, hj, hm⟩)))
  have henv := (envelope_iff hs hid h.notInternal).mpr h
  have hsingle := server.handleRequestSingle_of_members hid h
  rcases server.resolve_cases _ _ _ name with ⟨-, hr⟩ | ⟨s, m, hsplit, ⟨hf, -⟩ | ⟨service, hf, hr⟩⟩
  · rw [hr, Exec.throw_bind] at hsingle
    exact .inr (.inr (.inr ⟨_, hsingle, rfl⟩))
  · exact .inr (.inr (.inl (.inl ⟨name, s, m, henv, hsplit, .inl hf⟩)))
  rcases hr with ⟨-, hr⟩ | ⟨hm, -⟩
  · rw [hr, Exec.throw_bind] at hsingle
    exact .inr (.inr (.inr ⟨_, hsingle, rfl⟩))
  cases hp : OrderedMap.find m service.procedureReturn_ with
  | none => exact .inr (.inr (.inl (.inl ⟨name, s, m, henv, hsplit, .inr ⟨hm, service, hf, hp⟩⟩)))
  | some p =>
      have hnames : server.Names name p := ⟨s, m, service, hsplit, hm, hf, hp⟩
      by_cases hvalid : p.validateGeneric (.object ms) = .ok true
      · exact .inl ⟨p.callBack_, name, p, henv, hnames, hvalid, rfl⟩
      · exact .inr (.inl ⟨name, p, henv, hnames, hvalid⟩)

end Cases

/-- `handleRequestSingle` runs the callback of the one procedure that the request is for, on the
request as it is, or rejects the request with the code that says why there is none. -/
theorem handleRequestSingle_iff (server : RpcServer π ν) {ms : List (Bytes × Value)}
    (hs : OrderedMap.Sorted ms) (hid : (Value.object ms).hasMember (lit "id")) :
    (∀ callBack, server.handleRequestSingle (.object ms) = .ok callBack ↔
      server.Dispatches (.object ms) callBack) ∧
    (∀ callBack, server.Dispatches (.object ms) callBack →
      server.handleSingle (.object ms) = .ok (.call callBack (.object ms))) ∧
    ((¬ ∃ callBack, server.Dispatches (.object ms) callBack) →
      ∃ e : RequestException, server.handleRequestSingle (.object ms) = .throw (.request e) ∧
        (e.err = .RPC_METHOD_NOT_FOUND ↔ server.NotFound (.object ms)) ∧
        (e.err = .RPC_INVALID_PARAMS ↔ server.InvalidParams (.object ms))) := by
  have hcases := handleRequestSingle_cases hs server
  refine ⟨fun callBack ↦ ⟨fun hok ↦ ?_, fun h ↦ h.eq_ok hs⟩, fun callBack h ↦ ?_, fun hno ↦ ?_⟩
  · have hnot (err : Error) : ¬ server.Rejects (.object ms) err := by
      rintro ⟨e, he, -⟩
      cases hok.symm.trans he
    rcases hcases with ⟨callBack', h⟩ | h | h | h
    · cases hok.symm.trans (h.eq_ok hs)
      exact h
    · exact absurd (h.rejects hs) (hnot _)
    · exact absurd (h.rejects hs) (hnot _)
    · exact absurd h (hnot _)
  · rw [handleSingle, if_neg (by simp [isNotify, hid]), h.eq_ok hs, Exec.ok_bind]
  · obtain ⟨err, herr⟩ : ∃ err, server.Rejects (.object ms) err := by
      rcases hcases with h | h | h | h
      · exact absurd h hno
      · exact ⟨_, h.rejects hs⟩
      · exact ⟨_, h.rejects hs⟩
      · exact ⟨_, h⟩
    obtain ⟨e, he, rfl⟩ := herr
    have hself : server.Rejects (.object ms) e.err := ⟨e, he, rfl⟩
    refine ⟨e, he, ⟨fun herr ↦ ?_, fun h ↦ hself.unique (h.rejects hs)⟩,
      ⟨fun herr ↦ ?_, fun h ↦ hself.unique (h.rejects hs)⟩⟩
    · rcases hcases with h | h | h | h
      · exact absurd h hno
      · cases herr.symm.trans (hself.unique (h.rejects hs))
      · exact h
      · cases herr.symm.trans (hself.unique h)
    · rcases hcases with h | h | h | h
      · exact absurd h hno
      · exact h
      · cases herr.symm.trans (hself.unique (h.rejects hs))
      · cases herr.symm.trans (hself.unique h)

/-- The name is cut at the first of its two dots. -/
theorem handleRequestSingle_iff_sample :
    let p : Procedure Unit := ⟨(), []⟩
    let server : RpcServer Unit Unit := ⟨[(lit "A", ⟨[(lit "b.c", p)], []⟩)]⟩
    let request := Value.object
      [(lit "id", .int32 7), (lit "jsonrpc", .string (lit "2.0")),
        (lit "method", .string (lit "A.b.c"))]
    server.Dispatches request () := by
  intro p server request
  have hs : OrderedMap.Sorted [(lit "id", Value.int32 7),
      (lit "jsonrpc", .string (lit "2.0")), (lit "method", .string (lit "A.b.c"))] := by decide
  exact ((server.handleRequestSingle_iff hs rfl).1 ()).mp rfl

end RpcLearning.Rpc.RpcServer
