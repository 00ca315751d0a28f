import RpcLearning.Rpc.ClientStubGen
import RpcLearning.Rpc.StubGen.Filling

/-!
# What a client stub says of its proto

The stub is the templates with every placeholder replaced at once, and text from the proto is never
taken for a placeholder, exactly when no name contains a placeholder that is replaced with the name
or after it.  Otherwise the name is expanded, or `replaceAll` goes on without end.
-/

namespace RpcLearning.Rpc.ClientStubGen

open Json StubGen

/-! ## The stub as it is meant -/

/-- The parameters of a method as `genMember` adds them. -/
def membersText (ms : List (Bytes × Value)) : Bytes :=
  ms.flatMap fun m ↦ (methodMember m.1).filled ++ lit "\n"

/-- A method as its template shows it; what returns something has another parameter behind. -/
def methodFilling (text : Bytes) (hasLast : Bool) (serviceName methodName : Bytes)
    (params : Value) : Filling :=
  procedure text serviceName methodName (argsText params.members hasLast)
    (membersText params.members)

def returnFilling (serviceName : Bytes) (r : RpcReturn) : Filling :=
  methodFilling procedureReturnText true serviceName r.name_ r.params_

def notifyFilling (serviceName : Bytes) (r : RpcNotify) : Filling :=
  methodFilling procedureNotifyText false serviceName r.name_ r.params_

def returnsText (info : ServiceInfo) : Bytes :=
  info.rpcReturns_.flatMap fun r ↦ (returnFilling info.name_ r).filled ++ lit "\n"

def notifysText (info : ServiceInfo) : Bytes :=
  info.rpcNotifys_.flatMap fun r ↦ (notifyFilling info.name_ r).filled ++ lit "\n"

def clientFilling (info : ServiceInfo) : Filling :=
  client (genMacroName info) (genClientName info) (returnsText info) (notifysText info)

/-- The templates a parameter goes into. -/
def paramFillings (m : Bytes × Value) : List Filling :=
  [methodArg (argTypeName m.2.getType) m.1, methodMember m.1]

/-- The templates of a method. -/
def methodFillings (F : Filling) (params : Value) : List Filling :=
  params.members.flatMap paramFillings ++ [F]

/-- All templates that go into the stub, with what is filled into them. -/
def fillings (info : ServiceInfo) : List Filling :=
  info.rpcReturns_.flatMap (fun r ↦ methodFillings (returnFilling info.name_ r) r.params_) ++
    info.rpcNotifys_.flatMap (fun r ↦ methodFillings (notifyFilling info.name_ r) r.params_) ++
    [clientFilling info]

/-- The generator returns the templates with every placeholder replaced at once, and on the way
there every `replaceAll` replaces placeholders of its template alone. -/
def Verbatim (info : ServiceInfo) : Prop :=
  (∃ fuel, genClient fuel info = .ok (clientFilling info).filled) ∧
    ∀ F ∈ fillings info, F.Verbatim

/-! ## The names that allow it -/

/-- A name does not contain a placeholder that is replaced with it or after it. -/
structure Clean (info : ServiceInfo) : Prop where
  service : Free [placeholder "serviceName", placeholder "methodName", placeholder "methodArg",
    placeholder "paramsMember", placeholder "macroName", placeholder "clientName",
    placeholder "procedureReturns", placeholder "procedureNotifys"] info.name_
  returns : ∀ r ∈ info.rpcReturns_,
    Free [placeholder "methodName", placeholder "methodArg", placeholder "paramsMember",
      placeholder "procedureReturns", placeholder "procedureNotifys"] r.name_ ∧
    ∀ m ∈ r.params_.members,
      Free [placeholder "argName", placeholder "methodArg", placeholder "paramsMember",
        placeholder "procedureReturns", placeholder "procedureNotifys"] m.1
  notifys : ∀ r ∈ info.rpcNotifys_,
    Free [placeholder "methodName", placeholder "methodArg", placeholder "paramsMember",
      placeholder "procedureNotifys"] r.name_ ∧
    ∀ m ∈ r.params_.members,
      Free [placeholder "argName", placeholder "methodArg", placeholder "paramsMember",
        placeholder "procedureNotifys"] m.1

/-! ## The templates -/

theorem methodMember_fits (argName : Bytes) : (methodMember argName).Fits := by
  show Suits methodMemberText [placeholder "argName"]
  rw [methodMemberText, lines_eq (by repeat' constructor)]
  decide +kernel

/-- The placeholders of both procedure templates. -/
abbrev procedurePlaceholders : List Placeholder :=
  [placeholder "serviceName", placeholder "methodName", placeholder "methodArg",
    placeholder "paramsMember"]

theorem suits_procedureReturn : Suits procedureReturnText procedurePlaceholders := by
  rw [procedureReturnText, lines_eq (by repeat' constructor)]
  decide +kernel

theorem suits_procedureNotify : Suits procedureNotifyText procedurePlaceholders := by
  rw [procedureNotifyText, lines_eq (by repeat' constructor)]
  decide +kernel

theorem client_fits (macroName clientName procedureReturns procedureNotifys : Bytes) :
    (client macroName clientName procedureReturns procedureNotifys).Fits := by
  show Suits clientText [placeholder "macroName", placeholder "clientName",
    placeholder "procedureReturns", placeholder "procedureNotifys"]
  rw [clientText, lines_eq (by repeat' constructor)]
  decide +kernel

/-- A piece that a line ends has the placeholders it had. -/
theorem hole_infix_newline {s : Bytes} {p : Placeholder} :
    brackets.hole p <:+: s ++ lit "\n" ↔ brackets.hole p <:+: s :=
  Brackets.hole_infix_append_of_notMem (by decide)

theorem stops_line {F : Filling} (hF : F.Fits) : brackets.Stops (F.filled ++ lit "\n") :=
  (Filling.stops_filled hF).append stops_newline

theorem hole_infix_methodMember {argName : Bytes} {p : Placeholder} :
    brackets.hole p <:+: (methodMember argName).filled ↔ brackets.hole p <:+: argName := by
  rw [Filling.hole_infix_filled (methodMember_fits _)]
  simp [methodMember]

theorem methodMember_verbatim_iff {argName : Bytes} :
    (methodMember argName).Verbatim ↔ Free [placeholder "argName"] argName := by
  rw [Filling.verbatim_iff (methodMember_fits _)]
  simp [Brackets.Apart, methodMember, Free]

theorem hole_infix_membersText {ms : List (Bytes × Value)} {p : Placeholder} :
    brackets.hole p <:+: membersText ms ↔ ∃ m ∈ ms, brackets.hole p <:+: m.1 := by
  rw [membersText, hole_infix_flatMap fun m _ ↦ stops_line (methodMember_fits m.1)]
  simp only [hole_infix_newline, hole_infix_methodMember]

/-! ## The methods -/

section Method

variable {text : Bytes} {hasLast : Bool} {serviceName methodName : Bytes} {params : Value}

theorem methodFilling_fits (ht : Suits text procedurePlaceholders) (hasLast : Bool)
    (serviceName methodName : Bytes) (params : Value) :
    (methodFilling text hasLast serviceName methodName params).Fits := ht

theorem hole_infix_methodFilling (ht : Suits text procedurePlaceholders) {p : Placeholder} :
    brackets.hole p <:+: (methodFilling text hasLast serviceName methodName params).filled ↔
      brackets.hole p <:+: serviceName ∨ brackets.hole p <:+: methodName ∨
        ∃ m ∈ params.members, brackets.hole p <:+: m.1 := by
  rw [Filling.hole_infix_filled (methodFilling_fits ht _ _ _ _)]
  simp [methodFilling, procedure, hole_infix_argsText, hole_infix_membersText]

theorem methodFilling_verbatim_iff (ht : Suits text procedurePlaceholders) :
    (methodFilling text hasLast serviceName methodName params).Verbatim ↔
      Free procedurePlaceholders serviceName ∧
      Free [placeholder "methodName", placeholder "methodArg", placeholder "paramsMember"]
        methodName ∧
      ∀ m ∈ params.members, Free [placeholder "methodArg", placeholder "paramsMember"] m.1 := by
  rw [Filling.verbatim_iff (methodFilling_fits ht _ _ _ _)]
  simp [Brackets.Apart, methodFilling, procedure, Free, hole_infix_argsText,
    hole_infix_membersText]
  grind

/-- The templates of a method and of its parameters. -/
theorem methodFillings_verbatim_iff {F : Filling} :
    (∀ G ∈ methodFillings F params, G.Verbatim) ↔
      (∀ m ∈ params.members, Free [placeholder "argName"] m.1) ∧ F.Verbatim := by
  simp only [methodFillings, List.forall_mem_append, List.forall_mem_flatMap, paramFillings,
    List.forall_mem_cons, List.not_mem_nil, IsEmpty.forall_iff, implies_true,
    methodArg_verbatim_iff, methodMember_verbatim_iff, and_true, and_self]

/-- A method is generated from its parameters. -/
theorem returns_args {F : Filling} (hp : Typed params) (hasLast : Bool)
    (h : ∀ G ∈ methodFillings F params, G.Verbatim) :
    Returns (fun fuel ↦ genArg fuel params hasLast) (argsText params.members hasLast) := by
  obtain ⟨ms, rfl, hms⟩ := hp
  rw [methodFillings_verbatim_iff] at h
  have hargs : Returns
      (fun fuel ↦ joinEach (fun m ↦ methodArgTemplate fuel m.2.getType m.1) ms)
      (joined (fun m ↦ (methodArg (argTypeName m.2.getType) m.1).filled) ms) := by
    refine returns_joinEach fun m hm ↦ ?_
    simp only [methodArgTemplate, hms m hm, if_false]
    exact (methodArg_verbatim_iff.mpr (h.1 m hm)).returns
  refine Returns.bind (.ok ms) (hargs.bind ?_)
  cases hasLast
  · simpa [argsText] using Returns.ok _
  · exact .ok _

theorem returns_members {F : Filling} (hp : Typed params)
    (h : ∀ G ∈ methodFillings F params, G.Verbatim) :
    Returns (fun fuel ↦ genMember fuel params) (membersText params.members) := by
  obtain ⟨ms, rfl, -⟩ := hp
  rw [methodFillings_verbatim_iff] at h
  refine Returns.bind (.ok ms) (returns_appendEach fun m hm ↦ ?_)
  exact (methodMember_verbatim_iff.mpr (h.1 m hm)).returns.bind (.ok _)

end Method

/-! ## The whole stub -/

section Client

variable {info : ServiceInfo}

theorem hole_infix_returnsText {p : Placeholder} :
    brackets.hole p <:+: returnsText info ↔
      ∃ r ∈ info.rpcReturns_, brackets.hole p <:+: info.name_ ∨ brackets.hole p <:+: r.name_ ∨
        ∃ m ∈ r.params_.members, brackets.hole p <:+: m.1 := by
  have hstops : ∀ r ∈ info.rpcReturns_,
      brackets.Stops ((returnFilling info.name_ r).filled ++ lit "\n") :=
    fun r _ ↦ stops_line (methodFilling_fits suits_procedureReturn _ _ _ _)
  rw [returnsText, hole_infix_flatMap hstops]
  simp only [hole_infix_newline, returnFilling, hole_infix_methodFilling suits_procedureReturn]

theorem hole_infix_notifysText {p : Placeholder} :
    brackets.hole p <:+: notifysText info ↔
      ∃ r ∈ info.rpcNotifys_, brackets.hole p <:+: info.name_ ∨ brackets.hole p <:+: r.name_ ∨
        ∃ m ∈ r.params_.members, brackets.hole p <:+: m.1 := by
  have hstops : ∀ r ∈ info.rpcNotifys_,
      brackets.Stops ((notifyFilling info.name_ r).filled ++ lit "\n") :=
    fun r _ ↦ stops_line (methodFilling_fits suits_procedureNotify _ _ _ _)
  rw [notifysText, hole_infix_flatMap hstops]
  simp only [hole_infix_newline, notifyFilling, hole_infix_methodFilling suits_procedureNotify]

theorem hole_infix_genMacroName {p : Placeholder} :
    brackets.hole p <:+: genMacroName info ↔ brackets.hole p <:+: info.name_ :=
  Brackets.hole_infix_append_of_notMem (by decide)

theorem hole_infix_genClientName {p : Placeholder} :
    brackets.hole p <:+: genClientName info ↔ brackets.hole p <:+: info.name_ :=
  Brackets.hole_infix_append_of_notMem (by decide)

theorem clientFilling_verbatim_iff :
    (clientFilling info).Verbatim ↔
      Free [placeholder "macroName", placeholder "clientName", placeholder "procedureReturns",
        placeholder "procedureNotifys"] info.name_ ∧
      (∀ r ∈ info.rpcReturns_,
        Free [placeholder "procedureReturns", placeholder "procedureNotifys"] r.name_ ∧
        ∀ m ∈ r.params_.members,
          Free [placeholder "procedureReturns", placeholder "procedureNotifys"] m.1) ∧
      ∀ r ∈ info.rpcNotifys_, Free [placeholder "procedureNotifys"] r.name_ ∧
        ∀ m ∈ r.params_.members, Free [placeholder "procedureNotifys"] m.1 := by
  rw [Filling.verbatim_iff (F := clientFilling info) (client_fits _ _ _ _)]
  simp [Brackets.Apart, clientFilling, client, Free, hole_infix_genMacroName,
    hole_infix_genClientName, hole_infix_returnsText, hole_infix_notifysText]
  grind

theorem fillings_verbatim_iff (hi : Accepted info) :
    (∀ F ∈ fillings info, F.Verbatim) ↔ Clean info := by
  simp only [fillings, List.forall_mem_append, List.forall_mem_flatMap, List.forall_mem_singleton,
    methodFillings_verbatim_iff, returnFilling, notifyFilling,
    methodFilling_verbatim_iff suits_procedureReturn,
    methodFilling_verbatim_iff suits_procedureNotify, clientFilling_verbatim_iff]
  constructor
  · rintro ⟨⟨hr, hn⟩, hs, hr', hn'⟩
    have hservice : Free procedurePlaceholders info.name_ := by
      rcases hi.nonempty with hne | hne
      · obtain ⟨r, hmem⟩ := List.exists_mem_of_ne_nil _ hne
        exact (hr r hmem).2.1
      · obtain ⟨r, hmem⟩ := List.exists_mem_of_ne_nil _ hne
        exact (hn r hmem).2.1
    refine ⟨?_, fun r hmem ↦ ?_, fun r hmem ↦ ?_⟩
    · exact free_append.mpr ⟨hservice, hs⟩
    · obtain ⟨harg, -, hname, hparams⟩ := hr r hmem
      refine ⟨free_append.mpr ⟨hname, (hr' r hmem).1⟩, fun m hm ↦ ?_⟩
      exact free_append.mpr ⟨harg m hm, free_append.mpr ⟨hparams m hm, (hr' r hmem).2 m hm⟩⟩
    · obtain ⟨harg, -, hname, hparams⟩ := hn r hmem
      refine ⟨free_append.mpr ⟨hname, (hn' r hmem).1⟩, fun m hm ↦ ?_⟩
      exact free_append.mpr ⟨harg m hm, free_append.mpr ⟨hparams m hm, (hn' r hmem).2 m hm⟩⟩
  · rintro ⟨hs, hr, hn⟩
    refine ⟨⟨fun r hmem ↦ ?_, fun r hmem ↦ ?_⟩, hs.subset (by simp), fun r hmem ↦ ?_,
      fun r hmem ↦ ?_⟩
    · obtain ⟨hname, hparams⟩ := hr r hmem
      exact ⟨fun m hm ↦ (hparams m hm).subset (by simp), hs.subset (by simp),
        hname.subset (by simp), fun m hm ↦ (hparams m hm).subset (by simp)⟩
    · obtain ⟨hname, hparams⟩ := hn r hmem
      exact ⟨fun m hm ↦ (hparams m hm).subset (by simp), hs.subset (by simp),
        hname.subset (by simp), fun m hm ↦ (hparams m hm).subset (by simp)⟩
    · obtain ⟨hname, hparams⟩ := hr r hmem
      exact ⟨hname.subset (by simp), fun m hm ↦ (hparams m hm).subset (by simp)⟩
    · obtain ⟨hname, hparams⟩ := hn r hmem
      exact ⟨hname.subset (by simp), fun m hm ↦ (hparams m hm).subset (by simp)⟩

theorem returns_genClient (hi : Accepted info) (h : ∀ F ∈ fillings info, F.Verbatim) :
    Returns (fun fuel ↦ genClient fuel info) (clientFilling info).filled := by
  simp only [fillings, List.forall_mem_append, List.forall_mem_flatMap,
    List.forall_mem_singleton] at h
  obtain ⟨⟨hr, hn⟩, hc⟩ := h
  refine Returns.bind (returns_appendEach fun r hmem ↦ ?_)
    (Returns.bind (returns_appendEach fun r hmem ↦ ?_) hc.returns)
  · have hF := (methodFillings_verbatim_iff.mp (hr r hmem)).2
    exact (returns_args (hi.returns r hmem) true (hr r hmem)).bind
      ((returns_members (hi.returns r hmem) (hr r hmem)).bind (hF.returns.bind (.ok _)))
  · have hF := (methodFillings_verbatim_iff.mp (hn r hmem)).2
    exact (returns_args (hi.notifys r hmem) false (hn r hmem)).bind
      ((returns_members (hi.notifys r hmem) (hn r hmem)).bind (hF.returns.bind (.ok _)))

end Client

/-- The stub is the simultaneous substitution exactly when the names of the proto are clean. -/
theorem genClient_verbatim_iff {proto : Value} {info : ServiceInfo} (h : new proto = .ok info) :
    Verbatim info ↔ Clean info := by
  have hi := accepted_of_new h
  rw [← fillings_verbatim_iff hi]
  constructor
  · intro hv
    exact hv.2
  · intro hv
    exact ⟨(returns_genClient hi hv).exists_eq, hv⟩

theorem clean_echo :
    Clean (oneNotifyInfo (lit "Echo") (lit "echo") [(lit "msg", .bool true)]) where
  service := free_of_isSealed (by decide) _
  returns r hr := absurd hr List.not_mem_nil
  notifys r hr := by
    rw [List.mem_singleton.mp hr]
    refine ⟨free_of_isSealed (by decide) _, fun m hm ↦ ?_⟩
    rw [List.mem_singleton.mp hm]
    exact free_of_isSealed (by decide) _

/-- Ordinary names appear in the stub as they are. -/
theorem verbatim_echo :
    Verbatim (oneNotifyInfo (lit "Echo") (lit "echo") [(lit "msg", .bool true)]) :=
  (genClient_verbatim_iff (new_oneNotify (lit "Echo") (lit "echo") rfl)).mpr clean_echo

/-- A parameter that is named like its own placeholder is replaced by itself without end. -/
theorem not_verbatim_argName :
    new (oneNotify (lit "Echo") (lit "echo") [(lit "[argName]", .bool true)]) =
        .ok (oneNotifyInfo (lit "Echo") (lit "echo") [(lit "[argName]", .bool true)]) ∧
      ¬ Verbatim (oneNotifyInfo (lit "Echo") (lit "echo") [(lit "[argName]", .bool true)]) := by
  have hparams : validateMembers [] [(lit "[argName]", .bool true)] = .ok () := rfl
  have hnew := new_oneNotify (lit "Echo") (lit "echo") hparams
  refine ⟨hnew, fun h ↦ ?_⟩
  have hclean := (fillings_verbatim_iff (accepted_of_new hnew)).mp h.2
  have hfree := (hclean.notifys _ List.mem_cons_self).2 (lit "[argName]", .bool true)
    List.mem_cons_self
  exact hfree (placeholder "argName") List.mem_cons_self (by decide)

end RpcLearning.Rpc.ClientStubGen
