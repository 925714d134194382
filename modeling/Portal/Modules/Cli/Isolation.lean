import Portal.Modules.Cli.Machine

/-!
Who a CLI connection speaks for, and whose text its buffers hold. A record is not cleared when its
connection ends; `FreshRecord` says of an event that, if it hands out a record, nothing of an
earlier connection is left in it or still points to it.

* `cli_isolated_false` — a connection that has not logged in speaks for the user of the one before,
  and finds what was typed there in its history.
-/

namespace Portal.Cli

open List Runs Option World

/-- The connection has logged in, and not logged out since. -/
def LoggedIn (log : List LogEntry) (conn : Nat) : Prop :=
  ∃ before after, log = before ++ .loggedIn conn :: after ∧ LogEntry.loggedOut conn ∉ after

structure Isolated (w : World) : Prop where
  messages : ∀ before after conn sent, w.log = before ++ .dispatched conn sent :: after →
    SpeaksFor sent → LoggedIn before conn
  text : ∀ i cell, (w.client i).active = true → (w.client i).editor.Holds cell →
    cell.typedBy = none ∨ cell.typedBy = w.owner i

/-- The record `i`, about to be given to a connection on `fd`, has neither session nor text, no
record in use has the descriptor, and no callback that has begun knows one of them. -/
structure World.Clean (w : World) (i : Nat) (fd : Int) : Prop where
  token : (w.client i).token.bytes = []
  username : (w.client i).username.bytes = []
  line : (w.client i).editor.len = 0
  history : ∀ entry ∈ (w.client i).editor.history, entry = []
  fd_unused : ∀ j, (w.client j).active = true → (w.client j).fd ≠ fd
  frames : ∀ fd' slot conn rest waiting, Frame.client fd' slot conn rest waiting ∈ w.frames →
    fd' ≠ fd ∧ slot ≠ i

/-- If the event hands out a record, the record is clean. -/
def FreshRecord (w : World) : CliEvent → Prop
  | .accept fd => ∀ i, w.idle → (w.conns.lookup fd).isNone → w.count < cliMaxClients →
      w.freeSlot = some i → w.Clean i fd
  | _ => True

section Logs

variable {log : List LogEntry} {conn : Nat} {e : LogEntry}

theorem loggedIn_self (log : List LogEntry) (conn : Nat) :
    LoggedIn (log ++ [.loggedIn conn]) conn :=
  ⟨log, [], rfl, not_mem_nil⟩

theorem LoggedIn.append (h : LoggedIn log conn) (he : e ≠ .loggedOut conn) :
    LoggedIn (log ++ [e]) conn := by
  obtain ⟨before, after, rfl, hout⟩ := h
  refine ⟨before, after ++ [e], by simp, ?_⟩
  rw [mem_append, mem_singleton]
  rintro (h | h)
  · exact hout h
  · exact he h.symm

end Logs

/-! ### Records -/

/-- The record keeps its descriptor and its session or loses it, and gets no text but what
connection `o` types. -/
structure Keeps (o : Option Nat) (c c' : Client) : Prop where
  fd : c'.fd = c.fd
  active : c'.active = true → c.active = true
  session : c'.HasSession → c.HasSession
  text : ∀ cell, c'.editor.Holds cell →
    c.editor.Holds cell ∨ cell.typedBy = none ∨ cell.typedBy = o

section Keeps

variable {o : Option Nat} {c c' c'' : Client}

theorem Keeps.trans (h : Keeps o c c') (h' : Keeps o c' c'') : Keeps o c c'' where
  fd := h'.fd.trans h.fd
  active := fun hactive => h.active (h'.active hactive)
  session := fun hsession => h.session (h'.session hsession)
  text := by
    intro cell hcell
    rcases h'.text cell hcell with hcell | hcell
    · exact h.text cell hcell
    · exact .inr hcell

theorem SameClient.keeps (h : SameClient c c') : Keeps o c c' where
  fd := h.fd
  active := fun hactive => h.active ▸ hactive
  session := by
    intro hsession
    rwa [Client.HasSession, h.token, h.username] at hsession
  text := fun cell hcell => .inl (h.editor ▸ hcell)

theorem Keeps.refl (c : Client) : Keeps o c c := (SameClient.refl c).keeps

theorem keeps_editor {ed : LineEditor}
    (h : ∀ cell, ed.Holds cell → c.editor.Holds cell ∨ cell.typedBy = none ∨ cell.typedBy = o) :
    Keeps o c { c with editor := ed } where
  fd := rfl
  active := id
  session := id
  text := h

theorem keeps_submitted : Keeps o c { c with editor := c.editor.submitted } :=
  keeps_editor fun _ hcell => .inl (LineEditor.holds_submitted hcell)

theorem keeps_terminate : Keeps o c { c with editor := c.editor.terminate } :=
  keeps_editor fun _ hcell => .inl (LineEditor.holds_terminate hcell)

theorem keeps_trimEnd : Keeps o c { c with editor := c.editor.trimEnd } := by
  apply keeps_editor
  rintro cell (⟨j, hj, hcell⟩ | hcell)
  · simp only [LineEditor.trimEnd, getElem?_mapIdx, map_eq_some_iff] at hcell
    obtain ⟨old, hold, rfl⟩ := hcell
    split
    · exact .inr (.inl rfl)
    · exact .inl (.inl ⟨j, hj, hold⟩)
  · exact .inl (.inr hcell)

theorem keeps_insertText {text : Bytes} {last : Option UInt8} :
    Keeps o c { c with editor := insertText c.editor text last } := by
  apply keeps_editor
  intro cell hcell
  rcases holds_insertText hcell with hcell | hcell
  · exact .inl hcell
  · exact .inr (.inl hcell)

theorem sameClient_closeShell (c : Client) : SameClient c (World.closeShell c) :=
  ⟨rfl, rfl, rfl, rfl, rfl⟩

theorem keeps_freeClient : Keeps o c (World.freeClient c) :=
  ⟨rfl, fun h => absurd h Bool.false_ne_true, id, fun _ hcell => .inl hcell⟩

theorem keeps_feedTop (b : UInt8) : Keeps o c (feedTop c b).1 := by
  have hesc : ∀ n, Keeps o c { c with editor := { c.editor with escState := n } } :=
    fun n => keeps_editor fun _ hcell => .inl hcell
  have hscroll : ∀ (c' : Client) (d : Int), Keeps o c c' →
      Keeps o c { c' with topScroll := c'.topScroll + d } :=
    fun c' d h => h.trans ⟨rfl, id, id, fun _ hcell => .inl hcell⟩
  let P : Client × FeedAction → Prop := fun x => Keeps o c x.1
  suffices hP : P (feedTop c b) from hP
  refine iteInduction (fun _ => hesc 2) fun _ => ?_
  refine iteInduction (fun _ => ?_) fun _ => ?_
  · refine iteInduction (fun _ => hscroll _ _ (hesc 0)) fun _ => ?_
    refine iteInduction (fun _ => hscroll _ _ (hesc 0)) fun _ => ?_
    exact iteInduction (fun _ => hesc 3) fun _ => hesc 0
  refine iteInduction (fun _ => hesc 0) fun _ => ?_
  refine iteInduction (fun _ => ⟨rfl, id, id, fun _ hcell => .inl hcell⟩) fun _ => ?_
  refine iteInduction (fun _ => hesc 1) fun _ => ?_
  refine iteInduction (fun _ => hscroll _ _ (.refl c)) fun _ => ?_
  exact iteInduction (fun _ => hscroll _ _ (.refl c)) fun _ => Keeps.refl c

/-- A byte typed on connection `conn` puts nothing into the record but itself. -/
theorem keeps_editorFeed {conn : Nat} {b : UInt8} :
    Keeps (some conn) c (editorFeed conn c b).1 := by
  have hkey : Keeps (some conn) c { c with editor := (c.editor.feedKey conn b).1 } := by
    apply keeps_editor
    intro cell hcell
    rcases LineEditor.holds_feedKey hcell with hcell | rfl
    · exact .inl hcell
    · exact .inr (.inr rfl)
  unfold editorFeed
  split
  · simp only
    split
    · exact (sameClient_closeShell c).keeps
    · exact .refl c
  · split
    · exact keeps_feedTop b
    · split <;> rename_i heq <;> rw [heq] at hkey <;> exact hkey

end Keeps

/-! ### The table -/

/-- The steps that hand out no record: owners stay, connections may end, and every record is
kept. -/
structure Steady (w w' : World) : Prop where
  owner : w'.owner = w.owner
  accepted : w'.accepted = w.accepted
  conns : ∀ fd k, w'.conns.lookup fd = some k → w.conns.lookup fd = some k
  clients : ∀ j, Keeps (w.owner j) (w.client j) (w'.client j)

section Steady

variable {w w' w'' : World} {i : Nat}

theorem Steady.trans (h : Steady w w') (h' : Steady w' w'') : Steady w w'' where
  owner := h'.owner.trans h.owner
  accepted := h'.accepted.trans h.accepted
  conns := fun fd k hk => h.conns fd k (h'.conns fd k hk)
  clients := fun j => (h.clients j).trans (h.owner ▸ h'.clients j)

theorem client_modifyClient (w : World) (i j : Nat) (f : Client → Client) :
    (w.modifyClient i f).client j = w.client j ∨
      j = i ∧ (w.modifyClient i f).client j = f (w.client j) := by
  simp only [client, modifyClient, getD_eq_getElem?_getD, getElem?_modify]
  cases hj : w.clients[j]? with
  | none => exact .inl rfl
  | some c =>
    by_cases hij : i = j
    · subst hij
      right
      simp
    · left
      simp [hij]

theorem client_modify_self {w : World} {i : Nat} {f : Client → Client} (h : i < w.clients.length) :
    (w.modifyClient i f).client i = f (w.client i) := by
  simp [client, modifyClient, h]

theorem client_modify_other {w : World} {i j : Nat} {f : Client → Client} (h : j ≠ i) :
    (w.modifyClient i f).client j = w.client j := by
  rcases client_modifyClient w i j f with heq | ⟨hij, -⟩
  · exact heq
  · exact absurd hij h

theorem client_setClient (w : World) (i j : Nat) (c : Client) :
    (w.setClient i c).client j = w.client j ∧ (j ≠ i ∨ w.client j = .zero) ∨
      j = i ∧ (w.setClient i c).client j = c := by
  simp only [client, setClient, getD_eq_getElem?_getD, getElem?_set]
  by_cases hij : i = j
  · subst hij
    by_cases hlt : i < w.clients.length
    · right
      simp [hlt]
    · left
      simp [hlt]
  · left
    simp [hij, Ne.symm hij]

theorem steady_modifyClient {f : Client → Client}
    (h : Keeps (w.owner i) (w.client i) (f (w.client i))) : Steady w (w.modifyClient i f) where
  owner := rfl
  accepted := rfl
  conns := fun _ _ hk => hk
  clients := by
    intro j
    rcases client_modifyClient w i j f with heq | ⟨rfl, heq⟩
    · rw [heq]
      exact .refl _
    · rw [heq]
      exact h

theorem steady_setClient {c : Client} (h : Keeps (w.owner i) (w.client i) c) :
    Steady w (w.setClient i c) where
  owner := rfl
  accepted := rfl
  conns := fun _ _ hk => hk
  clients := by
    intro j
    rcases client_setClient w i j c with ⟨heq, -⟩ | ⟨rfl, heq⟩
    · rw [heq]
      exact .refl _
    · rw [heq]
      exact h

theorem lookup_of_lookup_filter {conns : List (Int × Nat)} {fd fd' : Int} {k : Nat}
    (h : (conns.filter fun x => x.1 ≠ fd).lookup fd' = some k) : conns.lookup fd' = some k := by
  obtain ⟨before, after, heq, hbefore⟩ := lookup_eq_some_iff.mp h
  obtain ⟨front, rest, rfl, rfl, hrest⟩ := filter_eq_append_iff.mp heq
  obtain ⟨skipped, tail, rfl, hskipped, hne, -⟩ := filter_eq_cons_iff.mp hrest
  refine lookup_eq_some_iff.mpr ⟨front ++ skipped, tail, by simp, fun x hx => ?_⟩
  by_cases hfd : x.1 = fd
  · simpa [hfd] using hne
  · rcases mem_append.mp hx with hx | hx
    · exact hbefore x (mem_filter.mpr ⟨hx, by simpa using hfd⟩)
    · exact absurd hfd (by simpa using hskipped x hx)

theorem steady_closeFd (w : World) (fd : Int) : Steady w (w.closeFd fd) := by
  refine ⟨rfl, rfl, fun _ _ hk => lookup_of_lookup_filter hk, fun j => ?_⟩
  simp only [client, closeFd, getD_eq_getElem?_getD, getElem?_map]
  cases w.clients[j]? with
  | none => exact .refl _
  | some c =>
    simp only [map_some, getD_some]
    split
    · exact (sameClient_closeShell c).keeps
    · exact .refl c

theorem steady_removeClient (w : World) (fd : Int) : Steady w (w.removeClient fd) := by
  apply (steady_closeFd w fd).trans
  unfold removeClient
  simp only
  generalize w.closeFd fd = w'
  split
  · exact ⟨rfl, rfl, fun _ _ hk => hk, fun _ => Keeps.refl _⟩
  · rename_i i _
    have hfree := steady_modifyClient (w := w') (i := i) (f := freeClient) keeps_freeClient
    exact ⟨hfree.owner, hfree.accepted, hfree.conns, hfree.clients⟩

end Steady

variable (w : World)

theorem steady_refl : Steady w w :=
  ⟨rfl, rfl, fun _ _ hk => hk, fun _ => Keeps.refl _⟩

theorem steady_frames (frames : List Frame) : Steady w { w with frames } :=
  ⟨rfl, rfl, fun _ _ hk => hk, fun _ => Keeps.refl _⟩

theorem steady_push (f : Frame) (frames : List Frame) : Steady w (w.push f frames) :=
  steady_frames w (f :: frames)

theorem steady_tell (e : LogEntry) : Steady w (w.tell e) :=
  ⟨rfl, rfl, fun _ _ hk => hk, fun _ => Keeps.refl _⟩

theorem log_removeClient (fd : Int) : (w.removeClient fd).log = w.log := by
  unfold removeClient
  simp only
  split <;> rfl

theorem frames_removeClient (fd : Int) : (w.removeClient fd).frames = w.frames := by
  unfold removeClient
  simp only
  split <;> rfl

theorem log_store (target : Option Nat) (c : Option Client) :
    (w.store target c).log = w.log := by
  unfold store
  split <;> rfl

theorem of_findClient {w : World} {fd : Int} {i : Nat} (h : w.findClient fd = some i) :
    (w.client i).active = true ∧ (w.client i).fd = fd := by
  obtain ⟨hlt, hi, -⟩ := findIdx?_eq_some_iff_getElem.mp h
  rw [Bool.and_eq_true, decide_eq_true_eq, getElem_take] at hi
  rw [length_take] at hlt
  have hclient : w.client i = w.clients[i] := by
    rw [client, getD_eq_getElem?_getD, getElem?_eq_getElem (by omega), getD_some]
  rw [hclient]
  exact ⟨hi.2, hi.1⟩

theorem steady_store {w : World} {target : Option Nat} {slot : Nat} {step : CommandStep}
    (htarget : target = none ∨ target = some slot)
    (hok : CommandOk (target.map w.client) step) : Steady w (w.store target step.1) := by
  unfold store
  split
  · rename_i i r' hr'
    rcases htarget with hnone | hsome
    · cases hnone
    · cases hsome
      obtain ⟨r, hr, hsame⟩ := hok.record r' hr'
      cases hr
      exact steady_setClient hsame.keeps
  · exact steady_refl w

/-! ### The invariant -/

structure Table (w : World) : Prop where
  session : ∀ i, (w.client i).HasSession → ∃ conn, w.owner i = some conn ∧ LoggedIn w.log conn
  text : ∀ i cell, (w.client i).editor.Holds cell →
    cell.typedBy = none ∨ cell.typedBy = w.owner i
  distinct : ∀ i j, (w.client i).active = true → (w.client j).active = true →
    (w.client i).fd = (w.client j).fd → i = j
  conns : ∀ fd conn i, w.conns.lookup fd = some conn → (w.client i).active = true →
    (w.client i).fd = fd → w.owner i = some conn
  owners : ∀ i j conn, w.owner i = some conn → w.owner j = some conn → i = j
  numbered : ∀ i conn, w.owner i = some conn → conn < w.accepted
  messages : ∀ before after conn sent, w.log = before ++ .dispatched conn sent :: after →
    SpeaksFor sent → LoggedIn before conn

/-- The record `slot` is the connection's, and no other record in use has the descriptor. -/
structure Serves (w : World) (fd : Int) (slot conn : Nat) : Prop where
  owner : w.owner slot = some conn
  only : ∀ j, (w.client j).active = true → (w.client j).fd = fd → j = slot

def FrameOk (w : World) : Frame → Prop
  | .client fd slot conn _ waiting =>
    Serves w fd slot conn ∧ ∀ x, waiting = some x → x.target = none ∨ x.target = some slot
  | .timer _ _ => True

structure Inv (w : World) : Prop where
  table : Table w
  frames : ∀ f ∈ w.frames, FrameOk w f

structure Under (w : World) (f : World.Running) : Prop where
  top : Serves w f.fd f.slot f.conn
  below : ∀ g ∈ f.below, FrameOk w g

/-- Owners stay, and no record comes into use or changes its descriptor. -/
structure SameShape (w w' : World) : Prop where
  owner : w'.owner = w.owner
  clients : ∀ j, (w'.client j).active = true →
    (w.client j).active = true ∧ (w'.client j).fd = (w.client j).fd

theorem Steady.sameShape {w w' : World} (hs : Steady w w') : SameShape w w' :=
  ⟨hs.owner, fun j hj => ⟨(hs.clients j).active hj, (hs.clients j).fd⟩⟩

section SameShape

variable {w w' : World} (hs : SameShape w w')

include hs

theorem Serves.sameShape {fd : Int} {slot conn : Nat} (h : Serves w fd slot conn) :
    Serves w' fd slot conn where
  owner := hs.owner ▸ h.owner
  only := by
    intro j hj hfd
    obtain ⟨hactive, hsame⟩ := hs.clients j hj
    exact h.only j hactive (hsame ▸ hfd)

theorem FrameOk.sameShape {f : Frame} (h : FrameOk w f) : FrameOk w' f := by
  cases f with
  | client fd slot conn rest waiting => exact ⟨h.1.sameShape hs, h.2⟩
  | timer next waiting => exact trivial

theorem Under.sameShape {f : World.Running} (h : Under w f) : Under w' f where
  top := h.top.sameShape hs
  below := fun g hg => (h.below g hg).sameShape hs

end SameShape

theorem sameShape_setClient {w : World} {i : Nat} {c : Client} (e : LogEntry)
    (hfd : c.fd = (w.client i).fd) (hactive : c.active = (w.client i).active) :
    SameShape w ((w.setClient i c).tell e) := by
  refine ⟨rfl, fun j hj => ?_⟩
  have hclient : ((w.setClient i c).tell e).client j = (w.setClient i c).client j := rfl
  rw [hclient] at hj ⊢
  rcases client_setClient w i j c with ⟨heq, -⟩ | ⟨rfl, heq⟩
  · rw [heq] at hj ⊢
    exact ⟨hj, rfl⟩
  · rw [heq] at hj ⊢
    exact ⟨hactive ▸ hj, hfd⟩

section Steady

variable {w w' : World} (hs : Steady w w')

include hs

theorem Table.steady (h : Table w) (hlog : w'.log = w.log) : Table w' where
  session := by
    intro i hsession
    rw [hs.owner, hlog]
    exact h.session i ((hs.clients i).session hsession)
  text := by
    intro i cell hcell
    rw [hs.owner]
    rcases (hs.clients i).text cell hcell with hcell | hcell
    · exact h.text i cell hcell
    · exact hcell
  distinct := by
    intro i j hi hj hfd
    rw [(hs.clients i).fd, (hs.clients j).fd] at hfd
    exact h.distinct i j ((hs.clients i).active hi) ((hs.clients j).active hj) hfd
  conns := by
    intro fd conn i hlookup hi hfd
    rw [(hs.clients i).fd] at hfd
    rw [hs.owner]
    exact h.conns fd conn i (hs.conns fd conn hlookup) ((hs.clients i).active hi) hfd
  owners := by
    rw [hs.owner]
    exact h.owners
  numbered := by
    rw [hs.owner, hs.accepted]
    exact h.numbered
  messages := by
    rw [hlog]
    exact h.messages

theorem Serves.steady {fd : Int} {slot conn : Nat} (h : Serves w fd slot conn) :
    Serves w' fd slot conn := h.sameShape hs.sameShape

theorem FrameOk.steady {f : Frame} (h : FrameOk w f) : FrameOk w' f := h.sameShape hs.sameShape

theorem Under.steady {f : World.Running} (h : Under w f) : Under w' f := h.sameShape hs.sameShape

end Steady

section Table

variable {w : World}

/-- A message speaks for somebody only if its connection is logged in. -/
theorem Table.dispatch (h : Table w) {conn : Nat} {sent : SentMsg}
    (hsent : SpeaksFor sent → LoggedIn w.log conn) : Table (w.tell (.dispatched conn sent)) where
  session := by
    intro i hsession
    obtain ⟨k, hk, hin⟩ := h.session i hsession
    exact ⟨k, hk, hin.append nofun⟩
  text := h.text
  distinct := h.distinct
  conns := h.conns
  owners := h.owners
  numbered := h.numbered
  messages := by
    intro before after k sent' hlog hspeaks
    rcases append_singleton_eq_split.mp hlog with ⟨rfl, heq, -⟩ | ⟨after', -, hlog⟩
    · cases heq
      exact hsent hspeaks
    · exact h.messages before after' k sent' hlog hspeaks

theorem Table.changeSession (h : Table w) {slot conn : Nat} (howner : w.owner slot = some conn)
    {c : Client} {e : LogEntry} (hfd : c.fd = (w.client slot).fd)
    (hactive : c.active = (w.client slot).active) (heditor : c.editor = (w.client slot).editor)
    (hsession : c.HasSession → LoggedIn (w.log ++ [e]) conn)
    (hother : ∀ k, k ≠ conn → e ≠ .loggedOut k) (hmessage : ∀ k sent, e ≠ .dispatched k sent) :
    Table ((w.setClient slot c).tell e) := by
  -- all records are as before in everything but the session
  have hsame : ∀ i, (((w.setClient slot c).tell e).client i).fd = (w.client i).fd ∧
      (((w.setClient slot c).tell e).client i).active = (w.client i).active ∧
      (((w.setClient slot c).tell e).client i).editor = (w.client i).editor := by
    intro i
    rcases client_setClient w slot i c with ⟨heq, -⟩ | ⟨rfl, heq⟩
    · exact ⟨congrArg Client.fd heq, congrArg Client.active heq, congrArg Client.editor heq⟩
    · exact ⟨(congrArg Client.fd heq).trans hfd, (congrArg Client.active heq).trans hactive,
        (congrArg Client.editor heq).trans heditor⟩
  constructor
  · intro i hi
    rcases client_setClient w slot i c with ⟨heq, hne⟩ | ⟨rfl, heq⟩
    · have hi' : (w.client i).HasSession := heq ▸ hi
      obtain ⟨k, hk, hin⟩ := h.session i hi'
      refine ⟨k, hk, hin.append (hother k ?_)⟩
      rintro rfl
      rcases hne with hne | hzero
      · exact hne (h.owners i slot k hk howner)
      · rw [hzero] at hi'
        rcases hi' with hi' | hi' <;> exact hi' rfl
    · exact ⟨conn, howner, hsession (heq ▸ hi)⟩
  · intro i cell hcell
    rw [(hsame i).2.2] at hcell
    exact h.text i cell hcell
  · intro i j hi hj hij
    rw [(hsame i).2.1] at hi
    rw [(hsame j).2.1] at hj
    rw [(hsame i).1, (hsame j).1] at hij
    exact h.distinct i j hi hj hij
  · intro fd k i hlookup hi hi'
    rw [(hsame i).2.1] at hi
    rw [(hsame i).1] at hi'
    exact h.conns fd k i hlookup hi hi'
  · exact h.owners
  · exact h.numbered
  · intro before after k sent hlog hspeaks
    rcases append_singleton_eq_split.mp hlog with ⟨-, heq, -⟩ | ⟨after', -, hlog⟩
    · exact absurd heq.symm (hmessage k sent)
    · exact h.messages before after' k sent hlog hspeaks

theorem Table.push (h : Table w) (f : Frame) (frames : List Frame) : Table (w.push f frames) :=
  ⟨h.session, h.text, h.distinct, h.conns, h.owners, h.numbered, h.messages⟩

end Table

section Callback

variable {w : World} {f : World.Running}

section

variable (ht : Table w)

include ht

theorem inv_push {g : Frame} {below : List Frame} (hg : FrameOk w g)
    (hbelow : ∀ g' ∈ below, FrameOk w g') : Inv (w.push g below) where
  table := ht.push g below
  frames := by
    intro g' hg'
    apply FrameOk.steady (steady_push w g below)
    rcases mem_cons.mp hg' with rfl | hg'
    · exact hg
    · exact hbelow g' hg'

theorem inv_proceed (hu : Under w f) : Inv (w.proceed f) :=
  inv_push ht ⟨hu.top, fun _ hx => absurd hx nofun⟩ hu.below

theorem inv_await (hu : Under w f) {sent : SentMsg} {waiting : Waiting}
    (hsent : SpeaksFor sent → LoggedIn w.log f.conn)
    (htarget : waiting.target = none ∨ waiting.target = some f.slot) :
    Inv (w.await f sent waiting) := by
  have hu' := hu.steady (steady_tell w (.dispatched f.conn sent))
  apply inv_push (ht.dispatch hsent)
  · refine ⟨hu'.top, fun x hx => ?_⟩
    cases hx
    exact htarget
  · exact hu'.below

theorem inv_modify_proceed (hu : Under w f) {g : Client → Client}
    (hg : Keeps (w.owner f.slot) (w.client f.slot) (g (w.client f.slot))) :
    Inv ((w.modifyClient f.slot g).proceed f) :=
  inv_proceed (ht.steady (steady_modifyClient hg) rfl) (hu.steady (steady_modifyClient hg))

theorem inv_leaveCommand (hu : Under w f) : Inv (w.leaveCommand f) :=
  inv_modify_proceed ht hu keeps_submitted

theorem inv_afterCommand (hu : Under w f) {target : Option Nat} {next : Next}
    (htarget : target = none ∨ target = some f.slot)
    (hnext : ∀ sent pending, next = .await sent pending → SpeaksFor sent →
      LoggedIn w.log f.conn) : Inv (w.afterCommand f target next) := by
  cases next with
  | done => exact inv_leaveCommand ht hu
  | await sent pending => exact inv_await ht hu (hnext sent pending rfl) htarget
  | foreign sends =>
    cases sends with
    | zero => exact inv_leaveCommand ht hu
    | succ sends =>
      refine inv_push ht ⟨hu.top, fun x hx => ?_⟩ hu.below
      cases hx
      exact htarget
  | quit =>
    have hs := steady_removeClient w f.fd
    exact inv_leaveCommand (ht.steady hs (log_removeClient w f.fd)) (hu.steady hs)

theorem inv_completeWith (hu : Under w f) {step : TabStep} (hplain : step.Plain) :
    Inv (w.completeWith f step) := by
  cases step with
  | insert text last => exact inv_modify_proceed ht hu keeps_insertText
  | ask msg query =>
    apply inv_await ht hu _ (.inr rfl)
    rintro (hwho | hctx)
    · exact absurd rfl hwho
    · exact absurd (hplain msg query rfl) hctx

/-- A message that only the record's user can sign is sent only if its connection is logged
in. -/
theorem loggedIn_of_signs (hu : Under w f) {target : Option Nat}
    (htarget : target = none ∨ target = some f.slot) {sent : SentMsg}
    (hsigns : Signs (target.map w.client) sent) (hspeaks : SpeaksFor sent) :
    LoggedIn w.log f.conn := by
  obtain ⟨r, hr, hsession⟩ := hsigns hspeaks
  rcases htarget with rfl | rfl
  · cases hr
  · cases hr
    obtain ⟨conn, howner, hin⟩ := ht.session f.slot hsession
    rw [hu.top.owner] at howner
    cases howner
    exact hin

end

theorem findClient_eq (hu : Under w f) :
    w.findClient f.fd = none ∨ w.findClient f.fd = some f.slot := by
  cases hfind : w.findClient f.fd with
  | none => exact .inl rfl
  | some i =>
    obtain ⟨hactive, hfd⟩ := of_findClient hfind
    rw [hu.top.only i hactive hfd]
    exact .inr rfl

section

variable (ht : Table w) (hu : Under w f)

include ht hu

theorem inv_submit (env : CliEnv) : Inv (w.submit f env) := by
  unfold submit
  simp only
  generalize CStr.ofBytes (cellBytes (cellText (w.client f.slot).editor.line)) = line
  have hs : Steady w (w.modifyClient f.slot fun c => { c with editor := c.editor.trimEnd }) :=
    steady_modifyClient keeps_trimEnd
  replace ht := ht.steady hs rfl
  replace hu := hu.steady hs
  generalize (w.modifyClient f.slot fun c => { c with editor := c.editor.trimEnd }) = w at ht hu
  have htarget := findClient_eq hu
  generalize w.findClient f.fd = target at htarget
  have hok : CommandOk (target.map w.client) (handleCommand env f.fd (target.map w.client) line) :=
    handleCommand_ok
  have hstore := steady_store htarget hok
  apply inv_afterCommand (ht.steady hstore (log_store _ _ _)) (hu.steady hstore) htarget
  intro sent pending hnext hspeaks
  rw [log_store]
  exact loggedIn_of_signs ht hu htarget (hok.signed sent pending hnext) hspeaks

theorem inv_feed (env : CliEnv) (b : UInt8) : Inv (w.feed f env b) := by
  unfold feed
  simp only
  have hkeeps : Keeps (w.owner f.slot) (w.client f.slot)
      (editorFeed f.conn (w.client f.slot) b).1 := by
    rw [hu.top.owner]
    exact keeps_editorFeed
  have hs := steady_setClient hkeeps
  replace ht := ht.steady hs rfl
  replace hu := hu.steady hs
  generalize w.setClient f.slot (editorFeed f.conn (w.client f.slot) b).1 = w' at ht hu
  split
  · exact inv_proceed ht hu
  · exact inv_await ht hu (fun hspeaks => absurd hspeaks (not_speaksFor_new _ _ _)) (.inr rfl)
  · have hs' : Steady w'
        (w'.modifyClient f.slot fun c => { c with editor := c.editor.terminate }) :=
      steady_modifyClient keeps_terminate
    exact inv_completeWith (ht.steady hs' rfl) (hu.steady hs') (plain_tabComplete _ _ _)
  · exact inv_submit ht hu env

/-- The end of a command, once its record is written: the message that may follow speaks for
nobody. -/
theorem inv_afterReply {inCommand : Bool} {next : Next}
    (hnext : ∀ sent pending, next = .await sent pending → ¬ SpeaksFor sent) :
    Inv (if inCommand then w.afterCommand f (some f.slot) next else w.proceed f) := by
  split
  · exact inv_afterCommand ht hu (.inr rfl)
      fun sent pending heq hspeaks => absurd hspeaks (hnext sent pending heq)
  · exact inv_proceed ht hu

/-- Only a granted login and a logout change the session, and both are told. -/
theorem table_reply (pending : Pending) (arg : CStr) (r : CliReply) :
    Table ((w.setClient f.slot (resumeCommand pending (w.client f.slot) arg r).1).tellReply
        f.conn pending r) ∧
      SameShape w ((w.setClient f.slot (resumeCommand pending (w.client f.slot) arg r).1).tellReply
        f.conn pending r) := by
  by_cases hplain : (∀ user, pending = .login user → loginGranted r = none) ∧ pending ≠ .logout
  · -- nothing is told
    have hs := steady_setClient (i := f.slot) (w := w) (c := (resumeCommand pending
      (w.client f.slot) arg r).1) (resumeCommand_ok hplain.1 hplain.2).keeps
    have htell : ∀ w' : World, w'.tellReply f.conn pending r = w' := by
      intro w'
      unfold tellReply
      split
      · rename_i user
        rw [hplain.1 user rfl]
        rfl
      · exact absurd rfl hplain.2
      · rfl
    rw [htell]
    exact ⟨ht.steady hs rfl, hs.sameShape⟩
  · cases pending with
    | login user =>
      cases hgranted : loginGranted r with
      | none =>
        refine absurd ⟨fun _ _ => hgranted, fun h => ?_⟩ hplain
        cases h
      | some token =>
        simp only [tellReply, resumeCommand, hgranted, isSome_some, if_true]
        refine ⟨ht.changeSession hu.top.owner rfl rfl rfl (fun _ => loggedIn_self _ _)
          (fun _ _ h => ?_) (fun _ _ h => ?_), sameShape_setClient _ rfl rfl⟩
        · cases h
        · cases h
    | logout =>
      refine ⟨ht.changeSession hu.top.owner rfl rfl rfl ?_ ?_ (fun _ _ h => ?_),
        sameShape_setClient _ rfl rfl⟩
      · rintro (htoken | huser)
        · exact absurd rfl htoken
        · exact absurd rfl huser
      · rintro k hk heq
        cases heq
        exact hk rfl
      · cases h
    | _ =>
      refine absurd ⟨fun _ h => ?_, fun h => ?_⟩ hplain
      · cases h
      · cases h

theorem inv_resume {waiting : Waiting}
    (htarget : waiting.target = none ∨ waiting.target = some f.slot) (r : CliReply) :
    Inv (w.resume f waiting r) := by
  unfold resume
  split
  · exact inv_completeWith ht hu (plain_tabReply _ _ _)
  · refine inv_afterCommand ht hu htarget fun _ _ heq => ?_
    cases heq
  rcases htarget with htarget | htarget
  · rw [htarget]
    exact inv_leaveCommand ht hu
  · rw [htarget]
    obtain ⟨htable, hshape⟩ := table_reply ht hu waiting.pending _ r
    exact inv_afterReply htable (hu.sameShape hshape) fun _ _ => resumeCommand_signed

end

end Callback

/-! ### Every step -/

theorem client_init (i : Nat) : cliInit.client i = .zero := by
  simp only [client, cliInit, getD_eq_getElem?_getD, getElem?_replicate]
  split <;> rfl

theorem clean_init (i : Nat) (fd : Int) : cliInit.Clean i fd where
  token := by rw [client_init]; rfl
  username := by rw [client_init]; rfl
  line := by rw [client_init]; rfl
  history := by
    rw [client_init]
    exact fun entry hentry => eq_of_mem_replicate hentry
  fd_unused := by
    intro j hj
    rw [client_init] at hj
    cases hj
  frames := fun _ _ _ _ _ h => absurd h not_mem_nil

theorem not_holds_of_clean {w : World} {i : Nat} {fd : Int} (h : w.Clean i fd) (cell : Cell) :
    ¬ (w.client i).editor.Holds cell := by
  rintro (⟨j, hj, -⟩ | ⟨entry, hentry, hcell⟩)
  · rw [h.line] at hj
    exact Nat.not_lt_zero j hj
  · rw [h.history entry hentry] at hcell
    cases hcell

theorem inv_init : Inv cliInit where
  table := by
    constructor
    · intro i hi
      rw [client_init] at hi
      rcases hi with hi | hi <;> exact absurd rfl hi
    · intro i cell hcell
      exact absurd hcell (not_holds_of_clean (clean_init i 0) cell)
    · intro i j hi
      rw [client_init] at hi
      cases hi
    · intro fd conn i h
      cases h
    · intro i j conn h
      cases h
    · intro i conn h
      cases h
    · intro before after conn sent h
      exact absurd h (by simp [cliInit])
  frames := fun f hf => absurd hf not_mem_nil

section Step

variable {w : World}

theorem inv_removeClient (h : Inv w) (fd : Int) : Inv (w.removeClient fd) := by
  have hs := steady_removeClient w fd
  refine ⟨h.table.steady hs (log_removeClient w fd), fun f hf => ?_⟩
  rw [frames_removeClient] at hf
  exact (h.frames f hf).steady hs

theorem lt_of_freeSlot {i : Nat} (h : w.freeSlot = some i) : i < w.clients.length :=
  (findIdx?_eq_some_iff_getElem.mp h).1

section Accept

variable {fd : Int} {i : Nat} (hslot : w.freeSlot = some i) (hclean : w.Clean i fd)

include hslot

/-- Record `i` is the new connection's, the others are as they were. -/
theorem acceptInto_cases {P : Nat → Client → Option Nat → Prop}
    (hself : P i (World.acceptedClient fd (w.client i)) (some w.accepted))
    (hother : ∀ j, j ≠ i → P j (w.client j) (w.owner j)) (j : Nat) :
    P j ((w.acceptInto i fd).client j) ((w.acceptInto i fd).owner j) := by
  by_cases hj : j = i
  · subst hj
    have hclient : (w.acceptInto j fd).client j = acceptedClient fd (w.client j) :=
      client_modify_self (lt_of_freeSlot hslot)
    have howner : (w.acceptInto j fd).owner j = some w.accepted := Function.update_self ..
    rwa [hclient, howner]
  · have hclient : (w.acceptInto i fd).client j = w.client j := client_modify_other hj
    have howner : (w.acceptInto i fd).owner j = w.owner j := Function.update_of_ne hj ..
    rw [hclient, howner]
    exact hother j hj

include hclean

theorem distinct_accept (h : Table w) (j k : Nat)
    (hj : ((w.acceptInto i fd).client j).active = true)
    (hk : ((w.acceptInto i fd).client k).active = true)
    (hjk : ((w.acceptInto i fd).client j).fd = ((w.acceptInto i fd).client k).fd) : j = k := by
  refine acceptInto_cases hslot (P := fun j c _ => c.active = true →
    c.fd = ((w.acceptInto i fd).client k).fd → j = k)
    (fun _ heq => ?_) (fun j _ hj heq => ?_) j hj hjk
  · refine acceptInto_cases hslot (P := fun k c _ => c.active = true → fd = c.fd → i = k)
      (fun _ _ => rfl) (fun k _ hk heq => ?_) k hk heq
    exact absurd heq.symm (hclean.fd_unused k hk)
  · refine acceptInto_cases hslot (P := fun k c _ => c.active = true → (w.client j).fd = c.fd →
      j = k) (fun _ heq => ?_) (fun k _ hk => h.distinct j k hj hk) k hk heq
    exact absurd heq (hclean.fd_unused j hj)

omit hclean in
theorem owners_accept (h : Table w) (j k conn : Nat)
    (hj : (w.acceptInto i fd).owner j = some conn)
    (hk : (w.acceptInto i fd).owner k = some conn) : j = k := by
  have hnew : ∀ j, w.owner j ≠ some w.accepted :=
    fun j hj => absurd (h.numbered j _ hj) (lt_irrefl _)
  refine acceptInto_cases hslot (P := fun j _ o => o = some conn → j = k)
    (fun heq => ?_) (fun j _ hj => ?_) j hj
  · refine acceptInto_cases hslot (P := fun k _ o => o = some conn → i = k)
      (fun _ => rfl) (fun k _ hk => ?_) k hk
    exact absurd (hk.trans heq.symm) (hnew k)
  · refine acceptInto_cases hslot (P := fun k _ o => o = some conn → j = k)
      (fun heq => ?_) (fun k _ hk => h.owners j k conn hj hk) k hk
    exact absurd (hj.trans heq.symm) (hnew j)

theorem table_accept (h : Table w) : Table (w.acceptInto i fd) where
  session := by
    refine acceptInto_cases hslot (P := fun _ c o => c.HasSession →
      ∃ conn, o = some conn ∧ LoggedIn w.log conn) ?_ (fun j _ => h.session j)
    rintro (htoken | huser)
    · exact absurd hclean.token htoken
    · exact absurd hclean.username huser
  text := by
    refine acceptInto_cases hslot (P := fun _ c o => ∀ cell, c.editor.Holds cell →
      cell.typedBy = none ∨ cell.typedBy = o) ?_ (fun j _ => h.text j)
    exact fun cell hcell => absurd hcell (not_holds_of_clean hclean cell)
  distinct := distinct_accept hslot hclean h
  conns := by
    intro fd' conn j hconn
    have hconn' : ((fd, w.accepted) :: w.conns).lookup fd' = some conn := hconn
    rw [lookup_cons] at hconn'
    refine acceptInto_cases hslot (P := fun _ c o => c.active = true → c.fd = fd' →
      o = some conn) (fun _ heq => ?_) (fun j _ hj heq => ?_) j
    · have hfd : fd = fd' := heq
      rwa [hfd, beq_self_eq_true] at hconn'
    · have hne : fd' ≠ fd := fun hfd => hclean.fd_unused j hj (heq.trans hfd)
      rw [beq_false_of_ne hne] at hconn'
      exact h.conns fd' conn j hconn' hj heq
  owners := owners_accept hslot h
  numbered := by
    refine acceptInto_cases hslot (P := fun _ _ o => ∀ conn, o = some conn →
      conn < w.accepted + 1) (fun conn heq => ?_) (fun j _ conn hj => ?_)
    · cases heq
      exact Nat.lt_succ_self _
    · exact Nat.lt_succ_of_lt (h.numbered j conn hj)
  messages := h.messages

theorem inv_accept (h : Inv w) : Inv (w.acceptInto i fd) := by
  refine ⟨table_accept hslot hclean h.table, fun f hf => ?_⟩
  cases f with
  | timer next waiting => exact trivial
  | client fd' slot conn rest waiting =>
    obtain ⟨hfd, hne⟩ := hclean.frames fd' slot conn rest waiting hf
    obtain ⟨hserves, htarget⟩ := h.frames _ hf
    refine ⟨⟨?_, ?_⟩, htarget⟩
    · exact (Function.update_of_ne hne ..).trans hserves.owner
    · refine acceptInto_cases hslot (P := fun j c _ => c.active = true → c.fd = fd' → j = slot)
        (fun _ heq => ?_) (fun j _ => hserves.only j)
      exact absurd heq.symm hfd

end Accept

theorem inv_onClientData (h : Inv w) {fd : Int} {conn : Nat}
    (hlookup : w.conns.lookup fd = some conn) (bytes : Bytes) :
    Inv (w.onClientData fd conn bytes) := by
  unfold onClientData
  split
  · exact inv_removeClient h fd
  rename_i i hfind
  obtain ⟨hactive, hfd⟩ := of_findClient hfind
  have hserves : Serves w fd i conn :=
    ⟨h.table.conns fd conn i hlookup hactive hfd,
      fun j hj hjfd => h.table.distinct j i hj hactive (hjfd.trans hfd.symm)⟩
  have hpush : ∀ (w' : World) (rest : Bytes), Steady w w' → w'.log = w.log →
      w'.frames = w.frames → Inv (w'.push (.client fd i conn rest none) w'.frames) := by
    intro w' rest hs hlog hframes
    apply inv_push (h.table.steady hs hlog)
    · exact ⟨hserves.steady hs, fun _ hx => absurd hx nofun⟩
    · intro f hf
      exact (h.frames f (hframes ▸ hf)).steady hs
  split
  · exact inv_removeClient h fd
  · split
    · exact hpush _ _ (steady_modifyClient (sameClient_setWinsize _ _).keeps) rfl rfl
    · exact hpush w _ (steady_refl w) rfl rfl

theorem inv_frames (h : Inv w) {below : List Frame} (hbelow : ∀ f ∈ below, FrameOk w f) :
    Inv { w with frames := below } where
  table := h.table.steady (steady_frames w below) rfl
  frames := fun f hf => (hbelow f hf).steady (steady_frames w below)

theorem inv_timerStep (h : Inv w) {next : Nat} {below : List Frame}
    (hbelow : ∀ f ∈ below, FrameOk w f) : Inv (w.timerStep next below) := by
  unfold timerStep
  split
  · exact inv_frames h hbelow
  simp only
  split
  · cases w.owner next with
    | none => exact inv_push h.table trivial hbelow
    | some conn =>
      apply inv_push
      · exact h.table.dispatch fun hspeaks => absurd hspeaks (not_speaksFor_new _ _ _)
      · exact trivial
      · exact fun f hf => (hbelow f hf).steady (steady_tell w _)
  · exact inv_push h.table trivial hbelow

theorem inv_go (h : Inv w) (env : CliEnv) : Inv (cliStep w (.go env)) := by
  have hframes := h.frames
  rw [cliStep]
  split
  · rename_i fd slot conn b rest below hw
    rw [hw] at hframes
    exact inv_feed h.table ⟨(hframes _ mem_cons_self).1,
      fun f hf => hframes f (mem_cons_of_mem _ hf)⟩ env b
  · rename_i below hw
    rw [hw] at hframes
    exact inv_frames h fun f hf => hframes f (mem_cons_of_mem _ hf)
  · rename_i next below hw
    rw [hw] at hframes
    exact inv_timerStep h fun f hf => hframes f (mem_cons_of_mem _ hf)
  · exact h

theorem inv_reply (h : Inv w) (r : CliReply) : Inv (cliStep w (.reply r)) := by
  have hframes := h.frames
  rw [cliStep]
  split
  · rename_i fd slot conn rest waiting below hw
    rw [hw] at hframes
    obtain ⟨hserves, htarget⟩ := hframes _ mem_cons_self
    exact inv_resume h.table ⟨hserves, fun f hf => hframes f (mem_cons_of_mem _ hf)⟩
      (htarget waiting rfl) r
  · rename_i next below hw
    rw [hw] at hframes
    have hs : Steady w (w.modifyClient next fun c => clampScroll c r) :=
      steady_modifyClient (sameClient_clampScroll _ r).keeps
    apply inv_push (h.table.steady hs rfl)
    · exact trivial
    · exact fun f hf => (hframes f (mem_cons_of_mem _ hf)).steady hs
  · exact h

theorem inv_step (w : World) (e : CliEvent) (h : Inv w) (he : FreshRecord w e) :
    Inv (cliStep w e) := by
  cases e with
  | accept fd =>
    rw [cliStep]
    split
    · rename_i hok
      unfold onNewConnection
      split
      · exact h
      rename_i hroom
      cases hslot : w.freeSlot with
      | none => exact h
      | some i => exact inv_accept hslot (he i hok.1 hok.2 (not_le.mp hroom) hslot) h
    · exact h
  | hangup fd =>
    rw [cliStep]
    split
    · exact inv_removeClient h fd
    · exact h
  | data fd bytes =>
    rw [cliStep]
    split
    · cases hconn : w.conns.lookup fd with
      | none => exact h
      | some conn => exact inv_onClientData h hconn bytes
    · exact h
  | timer =>
    rw [cliStep]
    split
    · exact inv_push h.table trivial h.frames
    · exact h
  | go env => exact inv_go h env
  | reply r => exact inv_reply h r
  | relayEnd slot shellFd =>
    rw [cliStep]
    have hs : Steady w (w.modifyClient slot fun c =>
        if c.active && c.shellActive && c.shellFd = shellFd then closeShell c else c) := by
      apply steady_modifyClient
      split
      · exact (sameClient_closeShell _).keeps
      · exact .refl _
    exact ⟨h.table.steady hs rfl, fun f hf => (h.frames f hf).steady hs⟩

end Step

/-- If connections get clean records, a message speaks for somebody only if its connection has
logged in and not out since, and line and history of a connection hold only what was typed on it.
-/
theorem cli_isolated (es : List CliEvent) (h : Along cliStep FreshRecord cliInit es) :
    Isolated (run cliStep cliInit es) := by
  have hinv : Inv (run cliStep cliInit es) := h.invariant inv_step inv_init
  exact ⟨hinv.table.messages, fun i cell _ => hinv.table.text i cell⟩

/-! ### Two connections -/

def plainCli : CliEnv := ⟨fun _ => none, [], none, .lit ""⟩

def typed (fd : Int) (line : String) : List CliEvent :=
  .data fd ((CStr.lit line).bytes ++ [13]) :: List.replicate (line.length + 1) (.go plainCli)

def answered (body : String) : List CliEvent :=
  [.reply ⟨0, .ok, some (CStr.lit body).bytes⟩, .go plainCli]

def oneSession : List CliEvent :=
  .accept 5 :: (typed 5 "login root secret" ++ answered "0123abcd\n" ++ typed 5 "whoami")

/-- They leave, and the next connection has the same descriptor. -/
def nextSession : List CliEvent :=
  oneSession ++ answered "root\n" ++ [.data 5 [], .accept 5] ++ typed 5 "storage"

/-- Two are connected; one logs in, and the other asks while the first waits for an answer. -/
def twoSessions : List CliEvent :=
  .accept 5 :: .accept 6 :: (typed 5 "login root secret" ++ answered "0123abcd\n" ++
    typed 5 "whoami" ++ typed 6 "storage")

theorem clean_second : (cliStep cliInit (.accept 5)).Clean 1 6 where
  token := by decide +kernel
  username := by decide +kernel
  line := by decide +kernel
  history := by decide +kernel
  fd_unused := by
    intro j hj
    cases j with
    | zero => decide +kernel
    | succ j =>
      rw [show (cliStep cliInit (.accept 5)).client (j + 1) = cliInit.client (j + 1) from rfl,
        client_init] at hj
      cases hj
  frames := fun _ _ _ _ _ h => absurd h not_mem_nil

theorem cli_isolated_twoSessions :
    Along cliStep FreshRecord cliInit twoSessions ∧ Isolated (run cliStep cliInit twoSessions) := by
  have hfree : (cliStep cliInit (.accept 5)).freeSlot = some 1 := by decide +kernel
  have h : Along cliStep FreshRecord cliInit twoSessions := by
    refine ⟨fun i _ _ _ _ => clean_init i 5, fun i _ _ _ hi => ?_, along_of_forall ?_ _⟩
    · cases hfree.symm.trans hi
      exact clean_second
    intro e he w
    simp only [typed, answered, mem_append, mem_cons, mem_replicate, not_mem_nil, or_false] at he
    rcases he with (((rfl | ⟨-, rfl⟩) | rfl | rfl) | rfl | ⟨-, rfl⟩) | rfl | ⟨-, rfl⟩ <;>
      exact trivial
  exact ⟨h, cli_isolated twoSessions h⟩

def rootStorage : SentMsg :=
  cliAttachAuth (some { Client.zero with username := .lit "root", token := .lit "0123abcd" })
    (newMsg (.lit "/core/storage") portalMethodGet [])

/-- The second connection never logs in. Its `storage` goes out in the name of the user before it,
whose text is in its history. -/
theorem run_nextSession :
    .dispatched 1 rootStorage ∈ (run cliStep cliInit nextSession).log ∧
      .loggedIn 1 ∉ (run cliStep cliInit nextSession).log ∧
      (run cliStep cliInit nextSession).owner 0 = some 1 ∧
      ∃ entry ∈ ((run cliStep cliInit nextSession).client 0).editor.history,
        ∃ cell ∈ entry, cell.typedBy = some 0 := by
  decide +kernel

theorem cli_isolated_false : ¬ Isolated (run cliStep cliInit nextSession) := by
  obtain ⟨hsent, hout, -⟩ := run_nextSession
  obtain ⟨before, after, hlog⟩ := append_of_mem hsent
  intro h
  obtain ⟨earlier, later, rfl, -⟩ := h.messages before after 1 rootStorage hlog (.inl nofun)
  rw [hlog] at hout
  exact hout (by simp)

end Portal.Cli
