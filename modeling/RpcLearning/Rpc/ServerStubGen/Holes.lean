import RpcLearning.Rpc.ServerStubGen
import RpcLearning.Rpc.StubGen.Filling

/-!
# The placeholders that a server stub leaves

The parameter templates have a placeholder for the name that nothing is put in for, and their type
switches know no containers.  So a method with a parameter either fails the assertion of a switch or
leaves `[paramName]` in the stub; without parameters every template is filled.
-/

namespace RpcLearning.Rpc.ServerStubGen

open Json StubGen

/-! ## Names -/

def isDigit (c : UInt8) : Bool := 0x30 ≤ c && c ≤ 0x39

/-- A C++ identifier: letters, digits and underscores, no digit first. -/
def isIdentifier : Bytes → Bool
  | [] => false
  | c :: s => (isLetter c || c == 0x5f) && s.all fun c ↦ isLetter c || isDigit c || c == 0x5f

/-- All names of the proto are identifiers. -/
structure Identifiers (info : ServiceInfo) : Prop where
  service : isIdentifier info.name_
  returns : ∀ r ∈ info.rpcReturns_, isIdentifier r.name_ ∧
    ∀ m ∈ r.params_.members, isIdentifier m.1
  notifys : ∀ r ∈ info.rpcNotifys_, isIdentifier r.name_ ∧
    ∀ m ∈ r.params_.members, isIdentifier m.1

/-- The placeholders of the templates of the server. -/
def placeholders : List Placeholder :=
  [placeholder "macroStubName", placeholder "serverStubName", placeholder "serverName",
    placeholder "procedureBind", placeholder "paramType", placeholder "paramName",
    placeholder "methodName", placeholder "methodNameStub", placeholder "TypeName",
    placeholder "methodStubName", placeholder "methodArg", placeholder "argType",
    placeholder "argName", placeholder "index", placeholder "method"]

/-- The generator returns a text, and no placeholder remains in it. -/
def Complete (info : ServiceInfo) : Prop :=
  ∃ fuel text, genServer fuel info = .ok text ∧ Free placeholders text

/-- No method has a parameter. -/
def NoParams (info : ServiceInfo) : Prop :=
  (∀ r ∈ info.rpcReturns_, r.params_.members = []) ∧ ∀ r ∈ info.rpcNotifys_, r.params_.members = []

/-! ## The templates -/

/-- The placeholders that the templates of a binding replace. -/
abbrev bindPlaceholders : List Placeholder :=
  [placeholder "methodName", placeholder "methodNameStub", placeholder "TypeName",
    placeholder "serverStubName"]

/-- The placeholders that the templates of a stub replace. -/
abbrev stubPlaceholders : List Placeholder :=
  [placeholder "methodStubName", placeholder "methodName", placeholder "methodArg"]

/-- The placeholders that `serverTemplate` replaces. -/
abbrev serverPlaceholders : List Placeholder :=
  [placeholder "macroStubName", placeholder "serverStubName", placeholder "serverName",
    placeholder "procedureBind", placeholder "procedureReturnsStub",
    placeholder "procedureNotifysStub", placeholder "procedureReturns",
    placeholder "procedureNotifys"]

/-- The templates keep their placeholders apart, all but those of the parameters. -/
structure TextsSuit : Prop where
  bindReturn : Suits bindReturnText bindPlaceholders
  bindNotify : Suits bindNotifyText bindPlaceholders
  returnsStub : Suits returnsStubText stubPlaceholders
  notifyStub : Suits notifyStubText stubPlaceholders
  returns : Suits returnsText [placeholder "methodName", placeholder "methodArg"]
  server : Suits serverText serverPlaceholders

theorem textsSuit : TextsSuit where
  bindReturn := by
    rw [bindReturnText, lines_eq (by repeat' constructor)]
    decide +kernel
  bindNotify := by
    rw [bindNotifyText, lines_eq (by repeat' constructor)]
    decide +kernel
  returnsStub := by
    rw [returnsStubText, lines_eq (by repeat' constructor)]
    decide +kernel
  notifyStub := by
    rw [notifyStubText, lines_eq (by repeat' constructor)]
    decide +kernel
  returns := by
    rw [returnsText, lines_eq (by repeat' constructor)]
    decide +kernel
  server := by
    rw [serverText, lines_eq (by repeat' constructor)]
    decide +kernel

/-! ## A placeholder that remains -/

section Remains

theorem appendEach_eq_ok {β : Type} {f : β → Run Bytes} {xs : List β} {r : Bytes} {x : β}
    (h : appendEach f xs = .ok r) (hx : x ∈ xs) : ∃ piece, f x = .ok piece ∧ piece <:+: r := by
  induction xs generalizing r with
  | nil => cases hx
  | cons y xs ih =>
      simp only [appendEach, Exec.bind_eq_ok, Except.ok.injEq] at h
      obtain ⟨piece, hpiece, rest, hrest, rfl⟩ := h
      rcases List.mem_cons.mp hx with rfl | hx
      · exact ⟨piece, hpiece, List.infix_append_left⟩
      · obtain ⟨p, hp, hin⟩ := ih hrest hx
        exact ⟨p, hp, hin.trans List.infix_append_right⟩

/-- A parameter template that has the placeholder for the name keeps it. -/
theorem paramName_infix_nameType {text : Bytes}
    (ht : brackets.hole (placeholder "paramName") <:+: text) {fuel : Nat} {type : ValueType}
    {argName r : Bytes} (h : procedureBindNameTypeTemplate text fuel type argName = .ok r) :
    brackets.hole (placeholder "paramName") <:+: r := by
  rw [procedureBindNameTypeTemplate, Exec.bind_eq_ok] at h
  obtain ⟨paramType, -, h⟩ := h
  refine Brackets.hole_infix_replaceEach ?_ ht h
  show placeholder "paramName" ∉ [placeholder "paramType", placeholder "argName"]
  decide

/-- The template of a method takes it in with its parameters. -/
theorem paramName_infix_bindMethod {text : Bytes}
    (ht : brackets.hole (placeholder "TypeName") <:+: text) {fuel : Nat}
    {methodName methodNameStub TypeName serverStubName r : Bytes}
    (hT : brackets.hole (placeholder "paramName") <:+: TypeName)
    (h : (bindMethod text methodName methodNameStub TypeName serverStubName).replace fuel =
      .ok r) : brackets.hole (placeholder "paramName") <:+: r := by
  refine Brackets.hole_infix_replaceEach_value (q := placeholder "TypeName") ?_ ?_ ?_ ht hT h
  · show placeholder "paramName" ∉ bindPlaceholders
    decide
  · exact textsSuit.bindReturn.2.1
  · simp [bindMethod]

/-- So does the loop over the methods. -/
theorem paramName_infix_genBind {first later : Bytes}
    {nameType : ValueType → Bytes → Run Bytes} {bind : Bytes → Bytes → Bytes → Bytes → Run Bytes}
    (hnameType : ∀ {type argName r}, nameType type argName = .ok r →
      brackets.hole (placeholder "paramName") <:+: r)
    (hbind : ∀ {methodName methodNameStub TypeName serverStubName r},
      brackets.hole (placeholder "paramName") <:+: TypeName →
      bind methodName methodNameStub TypeName serverStubName = .ok r →
      brackets.hole (placeholder "paramName") <:+: r)
    {serverStubName r : Bytes} {bk : Bool} {funcs : List (Bytes × Value)} {func : Bytes × Value}
    (hf : func ∈ funcs) (hne : func.2.members ≠ [])
    (h : genBind first later nameType bind serverStubName bk funcs = .ok r) :
    brackets.hole (placeholder "paramName") <:+: r := by
  induction funcs generalizing bk r with
  | nil => cases hf
  | cons func' funcs ih =>
      obtain ⟨methodName, params⟩ := func'
      simp only [genBind, Exec.bind_eq_ok, Except.ok.injEq] at h
      obtain ⟨ms, hms, types, htypes, one, hone, rest, hrest, rfl⟩ := h
      rcases List.mem_cons.mp hf with rfl | hf
      · cases params with
        | object ms' =>
            cases hms
            obtain ⟨m, hm⟩ := List.exists_mem_of_ne_nil _ hne
            obtain ⟨piece, hpiece, hin⟩ := appendEach_eq_ok htypes hm
            have htypes : brackets.hole (placeholder "paramName") <:+: types :=
              (hnameType hpiece).trans hin
            exact (hbind (htypes.trans List.infix_append_right) hone).trans List.infix_append_left
        | _ => cases hms
      · exact (ih hf hrest).trans List.infix_append_right

theorem paramName_infix_nameTypeText :
    brackets.hole (placeholder "paramName") <:+: bindNameTypeReturnText ∧
      brackets.hole (placeholder "paramName") <:+: bindNameTypeBindText := by
  rw [bindNameTypeReturnText, bindNameTypeBindText, lines_eq (by repeat' constructor),
    lines_eq (by repeat' constructor)]
  decide +kernel

/-- A method with a parameter leaves `[paramName]` in the stub, if there is one. -/
theorem paramName_infix_genServer {info : ServiceInfo} (hne : ¬ NoParams info) {fuel : Nat}
    {text : Bytes} (h : genServer fuel info = .ok text) :
    brackets.hole (placeholder "paramName") <:+: text := by
  simp only [genServer, genProcedureBind, Exec.bind_eq_ok, Except.ok.injEq] at h
  obtain ⟨bind, ⟨returns, hreturns, notifys, hnotifys, rfl⟩, rs, -, ns, -, r, -, n, -, h⟩ := h
  have hbind : brackets.hole (placeholder "paramName") <:+: returns ++ notifys := by
    rw [NoParams, not_and_or] at hne
    push Not at hne
    rcases hne with ⟨func, hf, hparams⟩ | ⟨func, hf, hparams⟩
    · refine List.IsInfix.trans ?_ List.infix_append_left
      exact paramName_infix_genBind (paramName_infix_nameType paramName_infix_nameTypeText.1)
        (paramName_infix_bindMethod (hole_infix_of_suits textsSuit.bindReturn (by simp)))
        (List.mem_map.mpr ⟨func, hf, rfl⟩) hparams hreturns
    · refine List.IsInfix.trans ?_ List.infix_append_right
      exact paramName_infix_genBind (paramName_infix_nameType paramName_infix_nameTypeText.2)
        (paramName_infix_bindMethod (hole_infix_of_suits textsSuit.bindNotify (by simp)))
        (List.mem_map.mpr ⟨func, hf, rfl⟩) hparams hnotifys
  refine Brackets.hole_infix_replaceEach_value (q := placeholder "procedureBind") ?_ ?_ ?_
    (hole_infix_of_suits textsSuit.server (by simp)) hbind h
  · show placeholder "paramName" ∉ serverPlaceholders
    decide
  · exact textsSuit.server.2.1
  · simp [server]

end Remains

/-! ## A stub without placeholders -/

/-- No placeholder occurs, whatever its name. -/
def Bare (s : Bytes) : Prop := ∀ p : Placeholder, ¬ brackets.hole p <:+: s

theorem bare_nil : Bare [] := fun p ↦ Brackets.not_hole_infix_nil p

theorem bare_of_isSealed {s : Bytes} (h : brackets.isSealed s) : Bare s :=
  Brackets.not_hole_infix_of_isSealed h

theorem Bare.append {s t : Bytes} (hs : Bare s) (ht : Bare t) (hstops : brackets.Stops t) :
    Bare (s ++ t) := by
  intro p h
  rcases (Brackets.hole_infix_append (.inr hstops)).mp h with h | h
  · exact hs p h
  · exact ht p h

theorem Bare.append_of_notMem {s t : Bytes} (hs : Bare s) (ht : (0x5d : UInt8) ∉ t) :
    Bare (s ++ t) := fun p h ↦ hs p ((Brackets.hole_infix_append_of_notMem ht).mp h)

/-- An identifier has no brackets. -/
theorem bare_of_isIdentifier {s : Bytes} (h : isIdentifier s) : Bare s := by
  intro p hp
  have hmem : (0x5b : UInt8) ∈ s := hp.subset List.mem_cons_self
  cases s with
  | nil => cases hmem
  | cons c s =>
      rw [isIdentifier, Bool.and_eq_true, List.all_eq_true] at h
      rcases List.mem_cons.mp hmem with rfl | hmem
      · exact absurd h.1 (by decide)
      · exact absurd (h.2 _ hmem) (by decide)

/-- From some bound on a text comes out in which no placeholder occurs, and none comes about where
it is appended. -/
def Makes (f : Nat → Run Bytes) : Prop :=
  ∃ text, Returns f text ∧ Bare text ∧ brackets.Stops text

namespace Makes

theorem nil : Makes fun _ ↦ .ok [] := ⟨[], .ok _, bare_nil, Brackets.stops_nil⟩

theorem append {f g : Nat → Run Bytes} (hf : Makes f) (hg : Makes g) :
    Makes (fun fuel ↦ do
      let s ← f fuel
      let t ← g fuel
      .ok (s ++ t)) := by
  obtain ⟨s, hs, hbs, hss⟩ := hf
  obtain ⟨t, ht, hbt, hst⟩ := hg
  exact ⟨s ++ t, hs.bind (ht.bind (.ok _)), hbs.append hbt hst, hss.append hst⟩

/-- A piece that a line ends. -/
theorem line {f : Nat → Run Bytes} (hf : Makes f) :
    Makes (fun fuel ↦ do
      let s ← f fuel
      .ok (s ++ lit "\n")) := by
  obtain ⟨s, hs, hbs, hss⟩ := hf
  refine ⟨s ++ lit "\n", hs.bind (.ok _), ?_, hss.append stops_newline⟩
  exact hbs.append_of_notMem (by decide)

theorem appendEach {β : Type} {f : Nat → β → Run Bytes} {xs : List β}
    (h : ∀ x ∈ xs, Makes fun fuel ↦ f fuel x) : Makes fun fuel ↦ appendEach (f fuel) xs := by
  induction xs with
  | nil => exact nil
  | cons x xs ih =>
      rw [List.forall_mem_cons] at h
      exact h.1.append (ih h.2)

end Makes

/-- A template whose values hold no placeholder is filled. -/
theorem makes_filling {F : Filling} (hF : F.Fits) (hv : ∀ r ∈ F.values, Bare r.2) :
    Makes F.replace := by
  have hverb : F.Verbatim := by
    rw [Filling.verbatim_iff hF]
    refine ⟨?_, fun r hr ↦ hv r hr r.1⟩
    exact List.pairwise_iff_forall_sublist.mpr fun {r r'} hsub ↦
      hv r (hsub.subset List.mem_cons_self) r'.1
  refine ⟨F.filled, hverb.returns, fun p hp ↦ ?_, Filling.stops_filled hF⟩
  obtain ⟨r, hr, h⟩ := (Filling.hole_infix_filled hF).mp hp
  exact hv r hr p h

theorem bare_identifier_append {s : Bytes} (hs : isIdentifier s) {t : Bytes}
    (ht : (0x5d : UInt8) ∉ t) : Bare (s ++ t) :=
  (bare_of_isIdentifier hs).append_of_notMem ht

theorem bare_methodNameStub {s : Bytes} (hs : isIdentifier s) : Bare (s ++ lit "Stub") :=
  bare_identifier_append hs (by decide)

theorem bare_serverStubName {info : ServiceInfo} (hs : isIdentifier info.name_) :
    Bare (genServerStubName info) :=
  bare_identifier_append hs (by decide)

theorem bare_macroStubName {info : ServiceInfo} (hs : isIdentifier info.name_) :
    Bare (genMacroStubName info) :=
  bare_identifier_append hs (by decide)

/-! ### The templates -/

theorem makes_bindMethod {text methodName methodNameStub TypeName serverStubName : Bytes}
    (ht : text = bindReturnText ∨ text = bindNotifyText) (hm : Bare methodName)
    (hs : Bare methodNameStub) (hT : Bare TypeName) (hS : Bare serverStubName) :
    Makes (bindMethod text methodName methodNameStub TypeName serverStubName).replace := by
  refine makes_filling ?_ ?_
  · rcases ht with rfl | rfl
    · exact textsSuit.bindReturn
    · exact textsSuit.bindNotify
  · simp [bindMethod, hm, hs, hT, hS]

theorem makes_stub {text methodStubName methodName methodArg : Bytes}
    (ht : text = returnsStubText ∨ text = notifyStubText) (hs : Bare methodStubName)
    (hm : Bare methodName) (ha : Bare methodArg) :
    Makes (stub text methodStubName methodName methodArg).replace := by
  refine makes_filling ?_ ?_
  · rcases ht with rfl | rfl
    · exact textsSuit.returnsStub
    · exact textsSuit.notifyStub
  · simp [stub, hm, hs, ha]

theorem makes_virtualMethod {methodName methodArg : Bytes} (hm : Bare methodName)
    (ha : Bare methodArg) : Makes (virtualMethod returnsText methodName methodArg).replace := by
  refine makes_filling textsSuit.returns ?_
  simp [virtualMethod, hm, ha]

/-! ### The generator without parameters -/

/-- The list of no arguments. -/
def noArgs (hasLast : Bool) : Bytes := if hasLast then lit ", " else []

theorem bare_noArgs (hasLast : Bool) : Bare (noArgs hasLast) := by
  cases hasLast
  · exact bare_nil
  · exact bare_of_isSealed isSealed_comma

theorem genArg_nil (fuel : Nat) (hasLast : Bool) :
    genArg fuel (.object []) hasLast = .ok (noArgs hasLast) := by
  cases hasLast <;> rfl

theorem genParseMethodArg_nil (fuel : Nat) (hasLast : Bool) :
    genParseMethodArg fuel (.object []) hasLast = .ok (noArgs hasLast) := by
  cases hasLast <;> rfl

theorem makes_genBind {first later : Bytes} (hfirst : Bare first) (hlater : Bare later)
    {nameType : Nat → ValueType → Bytes → Run Bytes}
    {bind : Nat → Bytes → Bytes → Bytes → Bytes → Run Bytes}
    (hbind : ∀ {methodName methodNameStub TypeName serverStubName}, Bare methodName →
      Bare methodNameStub → Bare TypeName → Bare serverStubName →
      Makes fun fuel ↦ bind fuel methodName methodNameStub TypeName serverStubName)
    {serverStubName : Bytes} (hS : Bare serverStubName) {bk : Bool}
    {funcs : List (Bytes × Value)}
    (hf : ∀ func ∈ funcs, isIdentifier func.1 ∧ func.2 = .object []) :
    Makes fun fuel ↦
      genBind first later (nameType fuel) (bind fuel) serverStubName bk funcs := by
  induction funcs generalizing bk with
  | nil => exact .nil
  | cons func funcs ih =>
      rw [List.forall_mem_cons] at hf
      obtain ⟨⟨hname, hparams⟩, hf⟩ := hf
      obtain ⟨methodName, params⟩ := func
      simp only at hname hparams
      subst hparams
      have hT : Bare ((if bk then later else first) ++ []) := by
        rw [List.append_nil]
        cases bk
        · exact hfirst
        · exact hlater
      exact (hbind (bare_of_isIdentifier hname) (bare_methodNameStub hname) hT hS).append (ih hf)

/-- The names are identifiers, and no method has a parameter. -/
structure Simple (info : ServiceInfo) : Prop where
  service : isIdentifier info.name_
  returns : ∀ r ∈ info.rpcReturns_, isIdentifier r.name_ ∧ r.params_ = .object []
  notifys : ∀ r ∈ info.rpcNotifys_, isIdentifier r.name_ ∧ r.params_ = .object []

theorem simple_of_noParams {info : ServiceInfo} (hi : Accepted info) (hid : Identifiers info)
    (hn : NoParams info) : Simple info where
  service := hid.service
  returns r hr := by
    obtain ⟨ms, hms, -⟩ := hi.returns r hr
    have hnil := hn.1 r hr
    rw [hms, Value.members_object] at hnil
    exact ⟨(hid.returns r hr).1, hnil ▸ hms⟩
  notifys r hr := by
    obtain ⟨ms, hms, -⟩ := hi.notifys r hr
    have hnil := hn.2 r hr
    rw [hms, Value.members_object] at hnil
    exact ⟨(hid.notifys r hr).1, hnil ▸ hms⟩

section Server

variable {info : ServiceInfo}

theorem makes_genProcedureBind (h : Simple info) : Makes fun fuel ↦ genProcedureBind fuel info := by
  have hS := bare_serverStubName h.service
  refine Makes.append ?_ ?_
  · refine makes_genBind (bare_of_isSealed (by decide))
      (bare_of_isSealed (by decide)) (makes_bindMethod (.inl rfl)) hS fun func hf ↦ ?_
    obtain ⟨r, hr, rfl⟩ := List.mem_map.mp hf
    exact h.returns r hr
  · refine makes_genBind (bare_of_isSealed (by decide))
      (bare_of_isSealed (by decide)) (makes_bindMethod (.inr rfl)) hS fun func hf ↦ ?_
    obtain ⟨r, hr, rfl⟩ := List.mem_map.mp hf
    exact h.notifys r hr

theorem makes_genProcedureReturnsStub (h : Simple info) :
    Makes fun fuel ↦ genProcedureReturnsStub fuel info := by
  refine Makes.appendEach fun r hr ↦ ?_
  obtain ⟨hname, hparams⟩ := h.returns r hr
  simp only [hparams, genParseMethodArg_nil, Exec.ok_bind]
  exact (makes_stub (.inl rfl) (bare_methodNameStub hname) (bare_of_isIdentifier hname)
    (bare_noArgs true)).line

theorem makes_genProcedureNotifysStub (h : Simple info) :
    Makes fun fuel ↦ genProcedureNotifysStub fuel info := by
  refine Makes.appendEach fun r hr ↦ ?_
  obtain ⟨hname, hparams⟩ := h.notifys r hr
  simp only [hparams, genParseMethodArg_nil, Exec.ok_bind]
  exact (makes_stub (.inr rfl) (bare_methodNameStub hname) (bare_of_isIdentifier hname)
    (bare_noArgs false)).line

theorem makes_genProcedureReturns (h : Simple info) :
    Makes fun fuel ↦ genProcedureReturns fuel info := by
  refine Makes.appendEach fun r hr ↦ ?_
  obtain ⟨hname, hparams⟩ := h.returns r hr
  simp only [hparams, genArg_nil, Exec.ok_bind]
  exact (makes_virtualMethod (bare_of_isIdentifier hname) (bare_noArgs true)).line

theorem makes_genProcedureNotifys (h : Simple info) :
    Makes fun fuel ↦ genProcedureNotifys fuel info := by
  refine Makes.appendEach fun r hr ↦ ?_
  obtain ⟨hname, hparams⟩ := h.notifys r hr
  simp only [hparams, genArg_nil, Exec.ok_bind]
  exact (makes_virtualMethod (bare_of_isIdentifier hname) (bare_noArgs false)).line

theorem makes_genServer (h : Simple info) : Makes fun fuel ↦ genServer fuel info := by
  obtain ⟨bind, hbind, hb, -⟩ := makes_genProcedureBind h
  obtain ⟨rs, hrs, hbrs, -⟩ := makes_genProcedureReturnsStub h
  obtain ⟨ns, hns, hbns, -⟩ := makes_genProcedureNotifysStub h
  obtain ⟨r, hr, hbr, -⟩ := makes_genProcedureReturns h
  obtain ⟨n, hn, hbn, -⟩ := makes_genProcedureNotifys h
  have hserver := makes_filling (F := server (genMacroStubName info) (genServerStubName info)
    (genServerName info) bind rs ns r n) textsSuit.server (by
      simp [server, bare_macroStubName h.service, bare_serverStubName h.service, genServerName,
        bare_of_isIdentifier h.service, hb, hbrs, hbns, hbr, hbn])
  obtain ⟨text, htext, hbare, hstops⟩ := hserver
  exact ⟨text, hbind.bind (hrs.bind (hns.bind (hr.bind (hn.bind htext)))), hbare, hstops⟩

end Server

/-- The stub is complete exactly when no method has a parameter. -/
theorem genServer_complete_iff {proto : Value} {info : ServiceInfo} (h : new proto = .ok info)
    (hid : Identifiers info) : Complete info ↔ NoParams info := by
  constructor
  · rintro ⟨fuel, text, htext, hfree⟩
    by_contra hn
    exact hfree (placeholder "paramName") (by simp [placeholders])
      (paramName_infix_genServer hn htext)
  · intro hn
    obtain ⟨text, hreturns, hbare, -⟩ :=
      makes_genServer (simple_of_noParams (accepted_of_new h) hid hn)
    obtain ⟨fuel, htext⟩ := hreturns.exists_eq
    exact ⟨fuel, text, htext, fun p _ ↦ hbare p⟩

/-- A method without parameters gets a complete stub. -/
theorem complete_ping : Complete (oneNotifyInfo (lit "Echo") (lit "ping") []) := by
  have hid : Identifiers (oneNotifyInfo (lit "Echo") (lit "ping") []) := by
    refine ⟨by decide, fun r hr ↦ absurd hr List.not_mem_nil, fun r hr ↦ ?_⟩
    rw [List.mem_singleton.mp hr]
    exact ⟨by decide, fun m hm ↦ absurd hm List.not_mem_nil⟩
  refine (genServer_complete_iff (new_oneNotify (lit "Echo") (lit "ping") rfl) hid).mpr ?_
  refine ⟨fun r hr ↦ absurd hr List.not_mem_nil, fun r hr ↦ ?_⟩
  rw [List.mem_singleton.mp hr]
  rfl

/-- A single parameter leaves a placeholder. -/
theorem not_complete_echo :
    new (oneNotify (lit "Echo") (lit "echo") [(lit "msg", .bool true)]) =
        .ok (oneNotifyInfo (lit "Echo") (lit "echo") [(lit "msg", .bool true)]) ∧
      Identifiers (oneNotifyInfo (lit "Echo") (lit "echo") [(lit "msg", .bool true)]) ∧
      ¬ Complete (oneNotifyInfo (lit "Echo") (lit "echo") [(lit "msg", .bool true)]) := by
  refine ⟨new_oneNotify _ _ rfl, ?_, ?_⟩
  · refine ⟨by decide, fun r hr ↦ absurd hr List.not_mem_nil, fun r hr ↦ ?_⟩
    rw [List.mem_singleton.mp hr]
    refine ⟨by decide, fun m hm ↦ ?_⟩
    rw [List.mem_singleton.mp hm]
    decide
  · rintro ⟨fuel, text, htext, hfree⟩
    refine hfree (placeholder "paramName") (by simp [placeholders])
      (paramName_infix_genServer (fun hn ↦ ?_) htext)
    exact absurd (hn.2 _ List.mem_cons_self) (List.cons_ne_nil _ _)

end RpcLearning.Rpc.ServerStubGen
