import Portal.Modules.Cli.Commands

/-!
Who the commands of `modules/mod_cli/mod_cli.c` act for: the decisions that the router
(`portal_path_check_access`), the admin gate (`caller_is_admin`) and the listings
(`portal_labels_allow`) make for the messages of a command line.

To all three a message without a context comes from a caller with no user and no labels. A message
that is signed names the user of the record, but none of the user's labels.

* `describes_lineKind` — the commands agree with what `lineKind` reads off the line.
-/

namespace Portal.Cli

open List Option

/-! ### Decisions -/

def callerCtx (user : Option CStr) (labels : PortalLabels) : PortalCtx :=
  { PortalCtx.zero with auth := ⟨user.map CStr.bytes, none, labels⟩ }

/-- The rows that listings filter: the entries of the registry, and those of other tables. -/
def FilteredRow (tree : PortalPathTree) (others : List PortalLabels) (row : PortalLabels) : Prop :=
  (∃ path e, portalPathLookupEntry tree path = some e ∧ e.labels = row) ∨ row ∈ others

/-- The message is treated as if `caller` had sent it. -/
structure SameDecisions (inst : PortalInstance) (nextId now : UInt64) (others : List PortalLabels)
    (msg : PortalMsg) (caller : PortalCtx) : Prop where
  router : (apiSend inst nextId now msg).1 =
    (apiSend inst nextId now { msg with ctx := some caller }).1
  admin : callerIsAdmin (apiSend inst nextId now msg).2 =
    callerIsAdmin (apiSend inst nextId now { msg with ctx := some caller }).2
  listing : ∀ row, FilteredRow inst.paths others row →
    (portalLabelsAllow (apiSend inst nextId now msg).2.ctx (some row)).1 =
      (portalLabelsAllow (apiSend inst nextId now { msg with ctx := some caller }).2.ctx
        (some row)).1

/-- No label of the set decides anything: it does not make an admin, and no labelled row is
shown for it. -/
def Unprivileged (tree : PortalPathTree) (others : List PortalLabels) (labels : PortalLabels) :
    Prop :=
  CStr.lit "hub-admin" ∉ labels.labels ∧
    ∀ row, FilteredRow tree others row → row.labels ≠ [] →
      CStr.lit "sys.see_all" ∉ labels.labels ∧ ∀ l ∈ labels.labels, l ∉ row.labels

section Decisions

variable {inst : PortalInstance} {nextId now : UInt64} {others : List PortalLabels}
  {msg : PortalMsg}

theorem ctx_apiSend (inst : PortalInstance) (nextId now : UInt64) (msg : PortalMsg) :
    (apiSend inst nextId now msg).2.ctx = (populateTrace nextId now msg).ctx := by
  unfold apiSend
  simp only
  split
  · rfl
  · rfl

theorem router_same {caller : PortalCtx}
    (h : ∀ path e, portalPathLookupEntry inst.paths path = some e →
      (Permits e.labels msg.ctx ↔ Permits e.labels (some caller))) :
    (apiSend inst nextId now msg).1 =
      (apiSend inst nextId now { msg with ctx := some caller }).1 := by
  obtain hp | ⟨p, hp⟩ := eq_none_or_eq_some msg.path
  · have hcrash (m : PortalMsg) (hm : m.path = none) :
        (apiSend inst nextId now m).1 = .crash := by
      have hpath : (populateTrace nextId now m).path = none := hm
      simp only [apiSend, hpath]
    exact (hcrash msg hp).trans (hcrash { msg with ctx := some caller } hp).symm
  · exact (apiSend_withCtx_eq_iff inst nextId now hp (some caller)).mpr fun e => h _ e

theorem callerIsAdmin_apiSend (inst : PortalInstance) (nextId now : UInt64) (msg : PortalMsg) :
    callerIsAdmin (apiSend inst nextId now msg).2 = true ↔
      (msg.ctx.getD .zero).userName = some portalRootUser ∨
        CStr.lit "hub-admin" ∈ (msg.ctx.getD .zero).auth.labels.labels := by
  rw [callerIsAdmin, ctx_apiSend]
  simp [populateTrace, PortalCtx.userName, portalLabelsHas]

theorem portalLabelsAllow_apiSend (inst : PortalInstance) (nextId now : UInt64) (msg : PortalMsg)
    (row : PortalLabels) :
    (portalLabelsAllow (apiSend inst nextId now msg).2.ctx (some row)).1 = true ↔
      (msg.ctx.getD .zero).userName = some portalRootUser ∨
        CStr.lit "sys.see_all" ∈ (msg.ctx.getD .zero).auth.labels.labels ∨
        row.labels = [] ∨ ∃ l ∈ (msg.ctx.getD .zero).auth.labels.labels, l ∈ row.labels := by
  rw [ctx_apiSend, populateTrace, portalLabelsAllow_iff]
  rfl

theorem permits_getD (labels : PortalLabels) (ctx : Option PortalCtx) :
    Permits labels ctx ↔ Permits labels (some (ctx.getD .zero)) := by
  cases ctx with
  | none => simp [Permits, PortalCtx.userName, PortalCtx.zero]
  | some c => exact Iff.rfl

theorem userName_callerCtx (user : Option CStr) (labels : PortalLabels) :
    (callerCtx user labels).userName = user := by
  cases user with
  | none => rfl
  | some user => exact congrArg some (CStr.ofBytes_bytes user)

theorem labels_callerCtx (user : Option CStr) (labels : PortalLabels) :
    (callerCtx user labels).auth.labels = labels := rfl

theorem Unprivileged.allowed_iff {labels row : PortalLabels}
    (h : Unprivileged inst.paths others labels) (hf : FilteredRow inst.paths others row) :
    (CStr.lit "sys.see_all" ∈ labels.labels ∨ row.labels = [] ∨
      ∃ l ∈ labels.labels, l ∈ row.labels) ↔ row.labels = [] := by
  refine ⟨fun hallowed => ?_, fun hopen => .inr (.inl hopen)⟩
  by_contra hlabelled
  obtain ⟨hall, hnone⟩ := h.2 row hf hlabelled
  rcases hallowed with hsees | hopen | ⟨l, hl, hin⟩
  · exact hall hsees
  · exact hlabelled hopen
  · exact hnone l hl hin

/-- A message of nobody, or of `user` without labels, is treated as one of `user` with
labels. -/
theorem sameDecisions_iff {user : CStr} {labels : PortalLabels}
    (hlabels : (msg.ctx.getD .zero).auth.labels = .empty)
    (huser : (msg.ctx.getD .zero).userName = none ∨ (msg.ctx.getD .zero).userName = some user) :
    SameDecisions inst nextId now others msg (callerCtx (some user) labels) ↔
      (user = portalRootUser ∧ (msg.ctx.getD .zero).userName = some user) ∨
        user ≠ portalRootUser ∧ Unprivileged inst.paths others labels := by
  have hnolabels : (msg.ctx.getD .zero).auth.labels.labels = [] := congrArg _ hlabels
  have hname := userName_callerCtx (some user) labels
  have hadmin := callerIsAdmin_apiSend inst nextId now msg
  have hadmin' := callerIsAdmin_apiSend inst nextId now
    { msg with ctx := some (callerCtx (some user) labels) }
  have hallow := portalLabelsAllow_apiSend inst nextId now msg
  have hallow' := portalLabelsAllow_apiSend inst nextId now
    { msg with ctx := some (callerCtx (some user) labels) }
  simp only [hnolabels, not_mem_nil, false_and, exists_false, or_false, false_or]
    at hadmin hallow
  simp only [getD_some, hname, labels_callerCtx, some.injEq] at hadmin' hallow'
  have hnot (hroot : user ≠ portalRootUser) :
      (msg.ctx.getD .zero).userName ≠ some portalRootUser := by
    rcases huser with hnone | hsome
    · simp [hnone]
    · simpa [hsome] using hroot
  constructor
  · intro h
    by_cases hroot : user = portalRootUser
    · -- root passes the admin gate, so the message does
      have hpass := hadmin.mp (h.admin.trans (hadmin'.mpr (.inl hroot)))
      exact .inl ⟨hroot, hroot ▸ hpass⟩
    · refine .inr ⟨hroot, fun hhub => ?_, fun row hrow hlabelled => ?_⟩
      · exact hnot hroot (hadmin.mp (h.admin.trans (hadmin'.mpr (.inr hhub))))
      · have hhidden := mt (fun hshown => (hallow row).mp ((h.listing row hrow).trans hshown))
          (not_or.mpr ⟨hnot hroot, hlabelled⟩)
        simp only [hallow', not_or, not_exists, not_and] at hhidden
        exact ⟨hhidden.2.1, hhidden.2.2.2⟩
  rintro (⟨hroot, hmsg⟩ | ⟨hroot, hplain⟩)
  · rw [hroot] at hmsg hname
    refine ⟨router_same fun path e _ => ?_, ?_, fun row _ => ?_⟩
    · rw [permits_getD]
      exact iff_of_true (.inl ⟨_, rfl, hmsg⟩) (.inl ⟨_, rfl, hroot ▸ hname⟩)
    · exact (hadmin.mpr hmsg).trans (hadmin'.mpr (.inl hroot)).symm
    · exact ((hallow row).mpr (.inl hmsg)).trans ((hallow' row).mpr (.inl hroot)).symm
  · have hrow {row : PortalLabels} (hf : FilteredRow inst.paths others row) :=
      hplain.allowed_iff hf
    refine ⟨router_same fun path e he => ?_, ?_, fun row hf => Bool.eq_iff_iff.mpr ?_⟩
    · have hopen : Permits e.labels msg.ctx ↔ e.labels.labels = [] := by
        rw [permits_getD]
        simp [Permits, hnot hroot, hnolabels]
      rw [hopen, ← hrow (.inl ⟨path, e, he, rfl⟩)]
      refine ⟨fun h => ?_, ?_⟩
      · exact .inr (.inl ((hrow (.inl ⟨path, e, he, rfl⟩)).mp h))
      rintro (⟨c, ⟨⟩, hc⟩ | h | ⟨c, ⟨⟩, -, l, hl, hin⟩)
      · exact absurd (some.inj (hname.symm.trans hc)) hroot
      · exact .inr (.inl h)
      · exact .inr (.inr ⟨l, hin, hl⟩)
    · rw [Bool.eq_iff_iff, hadmin, hadmin']
      exact iff_of_false (hnot hroot) (not_or.mpr ⟨hroot, hplain.1⟩)
    · rw [hallow, hallow', hrow hf]
      simp [hnot hroot, hroot]

theorem sameDecisions_nobody (h : msg.ctx = none) (user : CStr) (labels : PortalLabels) :
    SameDecisions inst nextId now others msg (callerCtx (some user) labels) ↔
      user ≠ portalRootUser ∧ Unprivileged inst.paths others labels := by
  have hnone : (msg.ctx.getD .zero).userName = none := by rw [h]; rfl
  rw [sameDecisions_iff (by rw [h]; rfl) (.inl hnone)]
  simp [hnone]

theorem sameDecisions_named {user : CStr} {token : Option CStr}
    (h : msg.ctx = some (identityCtx ⟨some user, token⟩)) (labels : PortalLabels) :
    SameDecisions inst nextId now others msg (callerCtx (some user) labels) ↔
      user = portalRootUser ∨ user ≠ portalRootUser ∧ Unprivileged inst.paths others labels := by
  have hsome : (msg.ctx.getD .zero).userName = some user := by
    rw [h]
    exact congrArg some (CStr.ofBytes_bytes user)
  rw [sameDecisions_iff (by rw [h]; rfl) (.inr hsome)]
  simp [hsome]

theorem sameDecisions_missing (h : msg.ctx = none) :
    SameDecisions inst nextId now others msg (callerCtx none .empty) := by
  have hsame : populateTrace nextId now { msg with ctx := some (callerCtx none .empty) } =
      populateTrace nextId now msg := by
    unfold populateTrace
    rw [h]
    rfl
  have hsend : apiSend inst nextId now { msg with ctx := some (callerCtx none .empty) } =
      apiSend inst nextId now msg := by
    unfold apiSend
    rw [hsame]
  exact ⟨by rw [hsend], by rw [hsend], fun row _ => by rw [hsend]⟩

end Decisions

/-! ### What the messages of a line carry -/

inductive LineKind where
  | silent     -- no message is sent
  | anonymous  -- the messages carry no user
  | signed     -- the message carries the user's name
deriving DecidableEq

abbrev KindRow := Pattern × (CStr → LineKind)

def always (kind : LineKind) (pattern : Pattern) : KindRow := (pattern, fun _ => kind)

def basicKinds : List KindRow :=
  [always .silent (.word (.lit "help")),
    always .silent (.word (.lit "?")),
    always .silent (.args (.lit "help ")),
    always .signed (.word (.lit "status")),
    always .silent (.word (.lit "version")),
    always .silent (.word (.lit "pwd")),
    always .anonymous (.word (.lit "cd")),
    always .anonymous (.args (.lit "cd ")),
    always .anonymous (.word (.lit "ls")),
    always .anonymous (.args (.lit "ls ")),
    (.args (.lit "login "), fun args =>
      if (scanWord 63 args.bytes).isSome then .anonymous else .silent),
    always .silent (.word (.lit "login")),
    always .anonymous (.word (.lit "logout")),
    always .anonymous (.word (.lit "whoami"))]

def coreKinds : List KindRow :=
  [always .signed (.word (.lit "module list")),
    always .anonymous (.args (.lit "module load ")),
    (.args (.lit "module unload "), fun name =>
      if name = .lit "cli" then .silent else .anonymous),
    always .anonymous (.args (.lit "module reload ")),
    always .signed (.word (.lit "path list")),
    always .signed (.args (.lit "get ")),
    always .signed (.word (.lit "storage")),
    always .signed (.word (.lit "events")),
    always .signed (.word (.lit "locks")),
    always .anonymous (.args (.lit "locks ")),
    always .anonymous (.args (.lit "lock ")),
    always .anonymous (.args (.lit "unlock "))]

def sessionKinds : List KindRow :=
  [always .anonymous (.word (.lit "top")),
    always .silent (.args (.lit "verbose")),
    always .silent (.args (.lit "debug")),
    always .signed (.args (.lit "subscribe ")),
    always .signed (.args (.lit "unsubscribe ")),
    always .anonymous (.args (.lit "passwd ")),
    always .anonymous (.word (.lit "key")),
    always .anonymous (.word (.lit "key rotate"))]

def userKinds : List KindRow :=
  [always .signed (.word (.lit "user list")),
    always .signed (.args (.lit "user info ")),
    always .anonymous (.args (.lit "user create ")),
    always .anonymous (.args (.lit "user passwd ")),
    always .signed (.word (.lit "group list")),
    always .signed (.args (.lit "group info ")),
    always .anonymous (.args (.lit "group create ")),
    always .anonymous (.args (.lit "group adduser ")),
    always .anonymous (.args (.lit "group deluser "))]

def shellKinds : List KindRow :=
  [always .silent (.word (.lit "shell")),
    (.args (.lit "shell "), fun peer => if peer.bytes = [] then .silent else .signed),
    always .silent (.word (.lit "quit")),
    always .silent (.word (.lit "exit"))]

def commandKinds : List KindRow :=
  basicKinds ++ coreKinds ++ sessionKinds ++ userKinds ++ shellKinds

def configKind (withValue : Bool) (args : CStr) : LineKind :=
  match (scanWord 63 args.bytes).bind fun w => scanWord 255 w.2 with
  | none => .silent
  | some (_, rest) =>
    if withValue && ((rest.dropWhile isSpace).takeWhile (· ≠ 10)).take 4095 = [] then .silent
    else .anonymous

/-- A shortcut away from the root directory, or a registered command; those of other modules send
their messages themselves. -/
def otherKind (env : CliEnv) (r : Client) (line : CStr) : LineKind :=
  if r.cwd.bytes ≠ [] ∧ r.cwd ≠ .lit "/" ∧ line ∈ cwdShortcuts.map Prod.fst then .signed
  else
    match env.cliFind line with
    | some (.configGet, args) => configKind false args
    | some (.configSet, args) => configKind true args
    | some (.configList, _) => .anonymous
    | some (.foreign _, _) => .silent
    | none => .silent

def lineKind (env : CliEnv) (r : Client) (line : CStr) : LineKind :=
  let line := line.truncate (trimmedLength line.bytes)
  if line.bytes = [] then .silent
  else if (afterPrefix (.lit "__winsize ") line).isSome then .silent
  else
    (commandKinds.findSome? fun row => (row.1.arg line).map row.2).getD (otherKind env r line)

/-- What a command does next agrees with the kind of its line. Only `ls` sends a second
message. -/
def Describes (r : Client) : LineKind → Next → Prop
  | .silent, next => ∀ sent pending, next ≠ .await sent pending
  | .anonymous, next => ∃ sent pending, next = .await sent pending ∧ sent.1.ctx = none
  | .signed, next => ∃ sent pending token, next = .await sent pending ∧
      sent.1.ctx = some (identityCtx ⟨some r.username, token⟩) ∧
      ∀ fromArg, pending ≠ .ls fromArg

def Client.LoggedInAs (r : Client) (user : CStr) : Prop :=
  r.token.bytes ≠ [] ∧ r.username = user ∧ user.bytes ≠ []

section Kinds

variable {env : CliEnv} {fd : Int} {r : Client}

theorem describes_done : Describes r .silent .done := by
  rintro sent pending ⟨⟩

theorem describes_quit : Describes r .silent .quit := by
  rintro sent pending ⟨⟩

theorem describes_foreign {sends : Nat} : Describes r .silent (.foreign sends) := by
  rintro sent pending ⟨⟩

variable {pending : Pending}

theorem describes_anonymous {sent : SentMsg} (h : sent.1.ctx = none) :
    Describes r .anonymous (.await sent pending) := ⟨sent, pending, rfl, h⟩

theorem describes_new {path : CStr} {method : UInt8} {headers : List (CStr × CStr)} :
    Describes r .anonymous (.await (unsigned (newMsg path method headers)) pending) :=
  describes_anonymous (ctx_newMsg path method headers)

theorem describes_attach (htoken : r.token.bytes ≠ []) (msg : PortalMsg)
    (hpending : ∀ fromArg, pending ≠ .ls fromArg) :
    Describes r .signed (.await (cliAttachAuth (some r) msg) pending) := by
  refine ⟨_, _, some r.token, rfl, ?_, hpending⟩
  simp only [cliAttachAuth, if_neg htoken]

theorem describes_get (htoken : r.token.bytes ≠ []) (path : CStr) :
    Describes r .signed (.tell (coreGet (some r) path)) := by
  unfold coreGet
  simp only
  split <;> exact describes_attach htoken _ (by rintro _ ⟨⟩)

theorem describes_addToken {path : CStr} {method : UInt8} :
    Describes r .anonymous (.await (addToken r (newMsg path method [])) pending) := by
  apply describes_anonymous
  unfold addToken
  split
  · exact ctx_newMsg path method []
  · rw [ctx_portalMsgAddHeader, ctx_newMsg]

theorem describes_addUser (huser : r.username.bytes ≠ []) (msg : PortalMsg) (withToken : Bool) :
    Describes r .signed (.tell (addUser r withToken msg)) := by
  have hpresent : present r.username = some r.username := if_neg huser
  refine ⟨_, _, if withToken then present r.token else none, rfl, ?_, by rintro _ ⟨⟩⟩
  simp only [addUser, hpresent]

theorem describes_ls (arg : CStr) : Describes r .anonymous (cmdLs env (some r) arg).2 := by
  unfold cmdLs
  simp only
  generalize (if arg.bytes = [] then r.cwd else arg) = pre
  split
  · exact describes_new
  · exact describes_new

theorem describes_login (args : CStr) :
    Describes r (if (scanWord 63 args.bytes).isSome then .anonymous else .silent)
      (cmdLogin (some r) args).2 := by
  unfold cmdLogin
  obtain hnone | ⟨⟨user, rest⟩, hsome⟩ := eq_none_or_eq_some (scanWord 63 args.bytes)
  · rw [hnone]
    exact describes_done
  · rw [hsome]
    exact describes_new

theorem describes_passwd (huser : r.username.bytes ≠ []) (password : CStr) :
    Describes r .anonymous (cmdPasswd (some r) password).2 := by
  have hown : ownName (some r) = some r.username := if_neg huser
  simp only [cmdPasswd, hown]
  exact describes_anonymous (ctx_newMsg _ _ _)

theorem describes_logout (htoken : r.token.bytes ≠ []) :
    Describes r .anonymous (cmdLogout (some r)).2 := by
  simp only [cmdLogout, if_neg htoken]
  exact describes_addToken

theorem describes_shell (htoken : r.token.bytes ≠ []) (peer : CStr) :
    Describes r (if peer.bytes = [] then .silent else .signed) (cmdShell env (some r) peer).2 := by
  unfold cmdShell
  simp only
  by_cases hpeer : peer.bytes = []
  · rw [if_pos hpeer, if_neg (not_not.mpr hpeer)]
    split
    · exact describes_done
    · exact describes_done
  · rw [if_neg hpeer, if_pos hpeer]
    exact describes_attach htoken _ (by rintro _ ⟨⟩)

theorem describes_config (withValue : Bool) (args : CStr) :
    Describes r (configKind withValue args)
      (if withValue then cliConfigSet (some r) args else cliConfigGet (some r) args).2 := by
  unfold configKind cliConfigSet cliConfigGet
  obtain hmod | ⟨⟨mod, rest⟩, hmod⟩ := eq_none_or_eq_some (scanWord 63 args.bytes)
  · simp only [hmod, bind_none, ite_self]
    exact describes_done
  · simp only [hmod, bind_some]
    obtain hkey | ⟨⟨key, rest⟩, hkey⟩ := eq_none_or_eq_some (scanWord 255 rest)
    · simp only [hkey, ite_self]
      exact describes_done
    · simp only [hkey]
      cases withValue with
      | false => exact describes_new
      | true =>
        simp only [Bool.true_and, decide_eq_true_eq, if_true]
        split
        · exact describes_done
        · exact describes_new

theorem describes_other (htoken : r.token.bytes ≠ []) (line : CStr) :
    Describes r (otherKind env r line) (cmdOther env (some r) line).2 := by
  have hfind : (∃ s, cwdShortcuts.find? (fun s => decide (s.1 = line)) = some s) ↔
      line ∈ cwdShortcuts.map Prod.fst := by
    rw [← isSome_iff_exists, find?_isSome, List.mem_map]
    simp
  unfold otherKind cmdOther
  by_cases hshort : r.cwd.bytes ≠ [] ∧ r.cwd ≠ .lit "/" ∧ line ∈ cwdShortcuts.map Prod.fst
  · obtain ⟨hcwd, hroot, hline⟩ := hshort
    obtain ⟨s, hs⟩ := hfind.mpr hline
    rw [if_pos ⟨hcwd, hroot, hline⟩]
    simp only [filter_some, hcwd, hroot, ne_eq, not_false_eq_true, and_self, decide_true,
      if_true, bind_some, hs, map_some]
    exact describes_get htoken _
  · have hnone : (((some r).filter fun r => r.cwd.bytes ≠ [] ∧ r.cwd ≠ .lit "/").bind fun r =>
        (cwdShortcuts.find? fun s => decide (s.1 = line)).map fun s =>
          (CStr.concat [r.cwd, .lit "/", s.2]).truncate 2047) = none := by
      refine Option.bind_eq_none_iff.mpr fun r' hr' => Option.map_eq_none_iff.mpr ?_
      obtain ⟨⟨⟩, hcwd⟩ := filter_eq_some_iff.mp hr'
      obtain ⟨hcwd, hroot⟩ := of_decide_eq_true hcwd
      refine eq_none_iff_forall_ne_some.mpr fun s hs => ?_
      exact hshort ⟨hcwd, hroot, hfind.mp ⟨s, hs⟩⟩
    rw [if_neg hshort, hnone]
    obtain hcmd | ⟨⟨handler, args⟩, hcmd⟩ := eq_none_or_eq_some (env.cliFind line)
    · simp only [hcmd]
      exact describes_done
    · simp only [hcmd]
      cases handler with
      | configGet => exact describes_config false args
      | configSet => exact describes_config true args
      | configList => exact describes_new
      | foreign sends => exact describes_foreign

/-- Tests in the same order, with commands and kinds that agree. -/
def RowsAgree (r : Client) : List CommandRow → List KindRow → Prop :=
  List.Forall₂ fun row kind => row.1 = kind.1 ∧ ∀ arg, Describes r (kind.2 arg) (row.2 arg).2

theorem agree_cons {row : CommandRow} {kind : KindRow} {rows : List CommandRow}
    {kinds : List KindRow} (hpattern : row.1 = kind.1)
    (hrow : ∀ arg, Describes r (kind.2 arg) (row.2 arg).2) (hrows : RowsAgree r rows kinds) :
    RowsAgree r (row :: rows) (kind :: kinds) :=
  .cons ⟨hpattern, hrow⟩ hrows

theorem describes_findSome {rows : List CommandRow} {kinds : List KindRow}
    (h : RowsAgree r rows kinds) (line : CStr) {step : CommandStep} {kind : LineKind}
    (hother : Describes r kind step.2) :
    Describes r ((kinds.findSome? fun row => (row.1.arg line).map row.2).getD kind)
      ((rows.findSome? fun row => (row.1.arg line).map row.2).getD step).2 := by
  induction h with
  | nil => exact hother
  | @cons row kind rows kinds hrow _ ih =>
    obtain ⟨hpattern, hdescribes⟩ := hrow
    rw [findSome?_cons, findSome?_cons, hpattern]
    cases kind.1.arg line with
    | none => exact ih
    | some arg => exact hdescribes arg

theorem rowsAgree_basic (htoken : r.token.bytes ≠ []) :
    RowsAgree r (basicCommands env (some r)) basicKinds := by
  iterate 3 apply agree_cons rfl fun _ => describes_done
  apply agree_cons rfl fun _ => describes_get htoken _
  iterate 2 apply agree_cons rfl fun _ => describes_done
  iterate 2 apply agree_cons rfl fun _ => describes_new
  iterate 2 apply agree_cons rfl fun _ => describes_ls _
  apply agree_cons rfl fun _ => describes_login _
  apply agree_cons rfl fun _ => describes_done
  apply agree_cons rfl fun _ => describes_logout htoken
  apply agree_cons rfl fun _ => describes_addToken
  exact .nil

theorem rowsAgree_core (htoken : r.token.bytes ≠ []) :
    RowsAgree r (coreCommands fd (some r)) coreKinds := by
  apply agree_cons rfl fun _ => describes_get htoken _
  apply agree_cons rfl fun _ => describes_new
  apply agree_cons rfl
  · intro name
    simp only
    split
    · exact describes_done
    · exact describes_new
  apply agree_cons rfl fun _ => describes_new
  iterate 5 apply agree_cons rfl fun _ => describes_get htoken _
  apply agree_cons rfl fun _ => describes_new
  iterate 2 apply agree_cons rfl fun _ => describes_anonymous (ctx_newMsg _ _ _)
  exact .nil

theorem rowsAgree_session (huser : r.username.bytes ≠ []) :
    RowsAgree r (sessionCommands fd (some r)) sessionKinds := by
  apply agree_cons rfl fun _ => describes_new
  iterate 2 apply agree_cons rfl fun _ => describes_done
  apply agree_cons rfl fun _ => describes_addUser huser _ true
  apply agree_cons rfl fun _ => describes_addUser huser _ false
  apply agree_cons rfl fun _ => describes_passwd huser _
  iterate 2 apply agree_cons rfl fun _ => describes_addToken
  exact .nil

theorem rowsAgree_users (htoken : r.token.bytes ≠ []) :
    RowsAgree r (userCommands (some r)) userKinds := by
  iterate 2 apply agree_cons rfl fun _ => describes_get htoken _
  iterate 2 apply agree_cons rfl fun _ => describes_new
  iterate 2 apply agree_cons rfl fun _ => describes_get htoken _
  iterate 3 apply agree_cons rfl fun _ => describes_new
  exact .nil

theorem rowsAgree_shell (htoken : r.token.bytes ≠ []) :
    RowsAgree r (shellCommands env (some r)) shellKinds := by
  apply agree_cons rfl fun _ => describes_shell htoken (.lit "")
  apply agree_cons rfl fun _ => describes_shell htoken _
  iterate 2 apply agree_cons rfl fun _ => describes_quit
  exact .nil

theorem describes_lineKind {user : CStr} (h : r.LoggedInAs user) (line : CStr) :
    Describes r (lineKind env r line) (handleCommand env fd (some r) line).2 := by
  obtain ⟨htoken, rfl, huser⟩ := h
  unfold lineKind handleCommand
  simp only
  split
  · exact describes_done
  cases afterPrefix (.lit "__winsize ") (line.truncate (trimmedLength line.bytes)) with
  | some size => exact describes_done
  | none =>
    refine describes_findSome ?_ _ (describes_other htoken _)
    exact rel_append (rel_append (rel_append (rel_append
      (rowsAgree_basic htoken) (rowsAgree_core htoken)) (rowsAgree_session huser))
      (rowsAgree_users htoken)) (rowsAgree_shell htoken)

end Kinds

/-! ### The decisions for a command line -/

/-- The messages of a line: the one the command sends, and the one that follows a reply. -/
inductive Dispatches (env : CliEnv) (fd : Int) (r : Client) (line : CStr) : SentMsg → Prop
  | first {sent : SentMsg} {pending : Pending}
      (h : (handleCommand env fd (some r) line).2 = .await sent pending) :
      Dispatches env fd r line sent
  | next {first sent : SentMsg} {pending pending' : Pending} {r' : Client} {arg : CStr}
      {reply : CliReply} (h : (handleCommand env fd (some r) line).2 = .await first pending)
      (h' : (resumeCommand pending r' arg reply).2 = .await sent pending') :
      Dispatches env fd r line sent

section Lines

variable {env : CliEnv} {fd : Int} {r : Client} {line : CStr}

theorem not_dispatches (h : Describes r .silent (handleCommand env fd (some r) line).2)
    (sent : SentMsg) : ¬ Dispatches env fd r line sent := by
  rintro (hfirst | ⟨hfirst, -⟩)
  · exact h _ _ hfirst
  · exact h _ _ hfirst

theorem dispatches_anonymous (h : Describes r .anonymous (handleCommand env fd (some r) line).2) :
    (∃ sent, Dispatches env fd r line sent) ∧
      ∀ sent, Dispatches env fd r line sent → sent.1.ctx = none := by
  obtain ⟨sent, pending, hnext, hctx⟩ := h
  refine ⟨⟨sent, .first hnext⟩, ?_⟩
  rintro sent' (hfirst | ⟨-, hreply⟩)
  · cases hnext.symm.trans hfirst
    exact hctx
  · exact not_not.mp fun hsome => resumeCommand_signed hreply (.inr hsome)

theorem dispatches_signed (h : Describes r .signed (handleCommand env fd (some r) line).2) :
    (∃ sent, Dispatches env fd r line sent) ∧ ∀ sent, Dispatches env fd r line sent →
      ∃ token, sent.1.ctx = some (identityCtx ⟨some r.username, token⟩) := by
  obtain ⟨sent, pending, token, hnext, hctx, hpending⟩ := h
  refine ⟨⟨sent, .first hnext⟩, ?_⟩
  rintro sent' (hfirst | ⟨hfirst, hreply⟩)
  · cases hnext.symm.trans hfirst
    exact ⟨token, hctx⟩
  · cases hnext.symm.trans hfirst
    obtain ⟨fromArg, -, hls, -⟩ := resumeCommand_await hreply
    exact absurd hls (hpending fromArg)

end Lines

/-- Every message of the line is treated as if `caller` had sent it. -/
def ActsFor (env : CliEnv) (fd : Int) (r : Client) (line : CStr) (inst : PortalInstance)
    (nextId now : UInt64) (others : List PortalLabels) (caller : PortalCtx) : Prop :=
  ∀ sent, Dispatches env fd r line sent →
    SameDecisions inst nextId now others sent.1 caller

theorem actsFor_iff {env : CliEnv} {fd : Int} {r : Client} {line : CStr} {inst : PortalInstance}
    {nextId now : UInt64} {others : List PortalLabels} {caller : PortalCtx} {p : Prop}
    (hsome : ∃ sent, Dispatches env fd r line sent)
    (hall : ∀ sent, Dispatches env fd r line sent →
      (SameDecisions inst nextId now others sent.1 caller ↔ p)) :
    ActsFor env fd r line inst nextId now others caller ↔ p := by
  obtain ⟨first, hfirst⟩ := hsome
  exact ⟨fun h => (hall first hfirst).mp (h first hfirst),
    fun hp sent hsent => (hall sent hsent).mpr hp⟩

/-- A line with messages acts for root if they are signed, and for another user if the labels
of that user decide nothing. -/
def ActsRight (kind : LineKind) (tree : PortalPathTree) (others : List PortalLabels) (user : CStr)
    (labels : PortalLabels) : Prop :=
  kind = .silent ∨ (user = portalRootUser ∧ kind = .signed) ∨
    user ≠ portalRootUser ∧ Unprivileged tree others labels

/-- The decisions for a line are those for the user of the session, or for nobody. -/
theorem command_decisions_iff (env : CliEnv) (fd : Int) (r : Client) (line : CStr)
    (inst : PortalInstance) (nextId now : UInt64) (others : List PortalLabels) :
    (∀ user labels, r.LoggedInAs user →
      (ActsFor env fd r line inst nextId now others (callerCtx (some user) labels) ↔
        ActsRight (lineKind env r line) inst.paths others user labels)) ∧
    (¬ r.HasSession → ActsFor env fd r line inst nextId now others (callerCtx none .empty)) := by
  constructor
  · intro user labels hlogged
    have hdescribes : Describes r (lineKind env r line)
      (handleCommand env fd (some r) line).2 := describes_lineKind hlogged line
    obtain ⟨-, rfl, -⟩ := hlogged
    unfold ActsRight
    cases hkind : lineKind env r line with
    | silent =>
      rw [hkind] at hdescribes
      exact iff_of_true (fun sent hsent => absurd hsent (not_dispatches hdescribes sent))
        (.inl rfl)
    | anonymous =>
      rw [hkind] at hdescribes
      obtain ⟨hsome, hall⟩ := dispatches_anonymous hdescribes
      rw [actsFor_iff hsome fun sent hsent =>
        sameDecisions_nobody (hall sent hsent) r.username labels]
      simp
    | signed =>
      rw [hkind] at hdescribes
      obtain ⟨hsome, hall⟩ := dispatches_signed hdescribes
      rw [actsFor_iff hsome fun sent hsent => by
        obtain ⟨token, htoken⟩ := hall sent hsent
        exact sameDecisions_named htoken labels]
      simp
  · intro hnone sent hsent
    apply sameDecisions_missing
    by_contra hctx
    cases hsent with
    | first hfirst =>
      obtain ⟨r', ⟨⟩, hsession⟩ := handleCommand_ok.signed _ _ hfirst (.inr hctx)
      exact hnone hsession
    | next _ hreply => exact resumeCommand_signed hreply (.inr hctx)

section Labelled

def annLabels : PortalLabels := (portalLabelsAdd .empty (.lit "staff")).1

def labelledInstance : PortalInstance where
  paths := (portalPathAddLabel (portalPathRegister portalPathInit (.lit "/a") (.lit "m")).1
    (.lit "/a") (.lit "staff")).1
  modules := [⟨.lit "m", true, false⟩]
  portalConfigGet _ _ := none

def builtInEnv : CliEnv := ⟨fun _ => none, [], none, .lit ""⟩

def clientOf (user : CStr) : Client :=
  { Client.zero with
    fd := 5, cwd := .lit "/", token := .lit "tok", username := user, active := true }

theorem not_unprivileged_annLabels : ¬ Unprivileged labelledInstance.paths [] annLabels := by
  rintro ⟨-, hrows⟩
  have hentry : (portalPathLookupEntry labelledInstance.paths (.lit "/a")).map PathEntry.labels =
      some annLabels := by decide +kernel
  obtain ⟨e, he, hlabels⟩ := map_eq_some_iff.mp hentry
  have hstaff : CStr.lit "staff" ∈ annLabels.labels := by decide +kernel
  exact (hrows annLabels (.inl ⟨_, e, he, hlabels⟩) (ne_nil_of_mem hstaff)).2 _ hstaff hstaff

/-- Root reads the state, and somebody without a session lists the directory. -/
theorem command_decisions_root :
    ActsFor builtInEnv 5 (clientOf portalRootUser) (.lit "status") labelledInstance 1 1 []
        (callerCtx (some portalRootUser) annLabels) ∧
      ActsFor builtInEnv 5 .zero (.lit "ls") labelledInstance 1 1 [] (callerCtx none .empty) := by
  constructor
  · refine ((command_decisions_iff builtInEnv 5 (clientOf portalRootUser) (.lit "status")
      labelledInstance 1 1 []).1 portalRootUser annLabels ⟨?_, rfl, ?_⟩).mpr (.inr (.inl ⟨rfl, ?_⟩))
    · decide
    · decide
    · decide +kernel
  refine (command_decisions_iff builtInEnv 5 .zero (.lit "ls") labelledInstance 1 1 []).2 ?_
  rintro (htoken | huser)
  · exact htoken rfl
  · exact huser rfl

/-- `ann` has the label of `/a`: the router would let `ann` in and `ls` would show the path,
but for the messages of the commands they do neither. -/
theorem command_decisions_false :
    (clientOf (.lit "ann")).LoggedInAs (.lit "ann") ∧
      (apiSend labelledInstance 1 1 (coreGet (some (clientOf (.lit "ann"))) (.lit "/a")).1).1 =
        .forbidden ∧
      (apiSend labelledInstance 1 1 { (coreGet (some (clientOf (.lit "ann"))) (.lit "/a")).1 with
        ctx := some (callerCtx (some (.lit "ann")) annLabels) }).1 = .handle (.lit "m") ∧
      ¬ ActsFor builtInEnv 5 (clientOf (.lit "ann")) (.lit "get /a") labelledInstance 1 1 []
        (callerCtx (some (.lit "ann")) annLabels) ∧
      ¬ ActsFor builtInEnv 5 (clientOf (.lit "ann")) (.lit "ls") labelledInstance 1 1 []
        (callerCtx (some (.lit "ann")) annLabels) := by
  have hlogged : (clientOf (.lit "ann")).LoggedInAs (.lit "ann") := ⟨by decide, rfl, by decide⟩
  have hkind (line : CStr) :
      Describes (clientOf (.lit "ann")) (lineKind builtInEnv (clientOf (.lit "ann")) line)
        (handleCommand builtInEnv 5 (some (clientOf (.lit "ann"))) line).2 :=
    describes_lineKind hlogged line
  have hget := hkind (.lit "get /a")
  have hls := hkind (.lit "ls")
  rw [show lineKind builtInEnv (clientOf (.lit "ann")) (.lit "get /a") = .signed by
    decide +kernel] at hget
  rw [show lineKind builtInEnv (clientOf (.lit "ann")) (.lit "ls") = .anonymous by
    decide +kernel] at hls
  obtain ⟨⟨sentGet, hsentGet⟩, hgets⟩ := dispatches_signed hget
  obtain ⟨⟨sentLs, hsentLs⟩, hlists⟩ := dispatches_anonymous hls
  refine ⟨hlogged, by decide +kernel, by decide +kernel, fun h => ?_, fun h => ?_⟩
  · obtain ⟨token, htoken⟩ := hgets sentGet hsentGet
    rcases (sameDecisions_named htoken annLabels).mp (h sentGet hsentGet) with hroot | ⟨-, hun⟩
    · exact absurd hroot (by decide)
    · exact not_unprivileged_annLabels hun
  · exact not_unprivileged_annLabels
      ((sameDecisions_nobody (hlists sentLs hsentLs) _ _).mp (h sentLs hsentLs)).2

end Labelled

end Portal.Cli
