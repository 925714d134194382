import Portal.Modules.Cli.Machine

/-!
The table of client records of `mod_cli`. A new client takes the first free record, while
`find_client` and `remove_client` look only at as many records as there are clients. The records in
use are the first of the table as long as clients leave in the reverse order of their coming:
`Packed`.
-/

namespace Portal.Cli

open List Runs Option World

variable {fd : Int} {conn : Nat}

inductive ClientEvent where
  | connect (fd : Int)
  | fail (fd : Int)  -- an error on the descriptor
  | close (fd : Int)  -- the end of the stream
deriving DecidableEq

def ClientEvent.event : ClientEvent → CliEvent
  | .connect fd => .accept fd
  | .fail fd => .hangup fd
  | .close fd => .data fd []

def clientStep (w : World) (e : ClientEvent) : World := cliStep w e.event

/-- The clients that are connected, and no others, have a record, and it is found. -/
structure Consistent (w : World) : Prop where
  counted : w.count = w.conns.length
  found : ∀ fd conn, (fd, conn) ∈ w.conns →
    ∃ i, w.findClient fd = some i ∧ w.owner i = some conn
  freed : w.clients.countP (·.active) = w.conns.length
  accepts : w.conns.length < cliMaxClients → w.count < cliMaxClients ∧ w.freeSlot.isSome = true

/-- A client that leaves is the one that came last of those who are there. -/
def LastIn (w : World) : ClientEvent → Prop
  | .connect _ => True
  | .fail fd | .close fd =>
    (w.conns.lookup fd).isSome = true → w.conns.head?.map Prod.fst = some fd

/-! ### Records in use come first -/

/-- The records in use stand before the others, in the order in which their clients came. -/
structure Packed (w : World) (used free : List Client) : Prop where
  clients : w.clients = used ++ free
  size : w.clients.length = cliMaxClients
  frames : w.frames = []
  fds : used.map (·.fd) = (w.conns.map Prod.fst).reverse
  nodup : (w.conns.map Prod.fst).Nodup
  count : w.count = used.length
  active : ∀ c ∈ used, c.active = true
  idle : ∀ c ∈ free, c.active = false
  owners : ∀ i fd conn, w.conns.reverse[i]? = some (fd, conn) → w.owner i = some conn

section Packed

variable {w : World} {used free : List Client} {i : Nat} {c : Client}

theorem packed_cliInit : Packed cliInit [] (List.replicate cliMaxClients .zero) where
  clients := rfl
  size := length_replicate
  frames := rfl
  fds := rfl
  nodup := nodup_nil
  count := rfl
  active := forall_mem_nil _
  idle c hc := by
    rw [eq_of_mem_replicate hc]
    rfl
  owners i fd conn h := by cases h

theorem Packed.length_used (h : Packed w used free) : used.length = w.conns.length := by
  have hlength := congrArg List.length h.fds
  simpa using hlength

theorem Packed.nodup_fds (h : Packed w used free) : (used.map (·.fd)).Nodup := by
  rw [h.fds, nodup_reverse]
  exact h.nodup

theorem slot_eq (hnodup : (used.map (·.fd)).Nodup) {j : Nat} {d : Client} (hi : used[i]? = some c)
    (hj : used[j]? = some d) (hfd : c.fd = d.fd) : i = j := by
  obtain ⟨hi', rfl⟩ := List.getElem?_eq_some_iff.mp hi
  obtain ⟨hj', rfl⟩ := List.getElem?_eq_some_iff.mp hj
  have hlt : i < (used.map (·.fd)).length := by rwa [length_map]
  have hlt' : j < (used.map (·.fd)).length := by rwa [length_map]
  have heq : (used.map (·.fd))[i] = (used.map (·.fd))[j] := by
    rw [getElem_map, getElem_map, hfd]
  exact hnodup.getElem_inj_iff.mp heq

theorem findIdx?_of_nodup {p : Client → Bool} (hnodup : (used.map (·.fd)).Nodup)
    (hi : used[i]? = some c) (hp : p c = true) (hfd : ∀ c', p c' = true → c'.fd = c.fd) :
    used.findIdx? p = some i := by
  cases hfind : used.findIdx? p with
  | none =>
    rw [findIdx?_eq_none_iff.mp hfind c (mem_of_getElem? hi)] at hp
    cases hp
  | some j =>
    obtain ⟨hlt, hpj, -⟩ := findIdx?_eq_some_iff_getElem.mp hfind
    rw [slot_eq hnodup hi (getElem?_eq_getElem hlt) (hfd _ hpj).symm]

theorem Packed.take (h : Packed w used free) : w.clients.take w.count = used := by
  rw [h.clients, h.count, take_left]

variable {rest : List (Int × Nat)} {fd : Int}

section

variable (h : Packed w used free)

include h

theorem Packed.slot (hconn : (fd, conn) ∈ w.conns) :
    ∃ i c, used[i]? = some c ∧ c.fd = fd ∧ w.owner i = some conn := by
  obtain ⟨i, hi⟩ := getElem?_of_mem (mem_reverse.mpr hconn)
  have hfd : (used.map (·.fd))[i]? = some fd := by
    rw [h.fds, ← map_reverse, getElem?_map, hi, map_some]
  rw [getElem?_map] at hfd
  obtain ⟨c, hc, rfl⟩ := map_eq_some_iff.mp hfd
  exact ⟨i, c, hc, rfl, h.owners i c.fd conn hi⟩

theorem Packed.countP_active : w.clients.countP (·.active) = used.length := by
  rw [h.clients, countP_append, countP_eq_length.mpr h.active, countP_eq_zero.mpr, add_zero]
  intro c hc
  rw [h.idle c hc]
  exact Bool.false_ne_true

theorem Packed.freeSlot : w.freeSlot = if w.count < cliMaxClients then some w.count else none := by
  have hused : used.findIdx? (fun c => !c.active) = none := by
    rw [findIdx?_eq_none_iff]
    intro c hc
    rw [h.active c hc]
    rfl
  have hsize := h.size
  rw [h.clients, length_append] at hsize
  rw [World.freeSlot, h.clients, findIdx?_append, hused, Option.none_or, h.count]
  cases free with
  | nil =>
    rw [length_nil] at hsize
    rw [if_neg (by omega)]
    rfl
  | cons c free =>
    rw [length_cons] at hsize
    rw [if_pos (by omega), findIdx?_cons, h.idle c mem_cons_self]
    simp

theorem Packed.consistent : Consistent w where
  counted := h.count.trans h.length_used
  found fd conn hconn := by
    obtain ⟨i, c, hi, rfl, howner⟩ := h.slot hconn
    refine ⟨i, ?_, howner⟩
    rw [findClient, h.take]
    refine findIdx?_of_nodup h.nodup_fds hi ?_ ?_
    · simp [h.active c (mem_of_getElem? hi)]
    · intro c' hc'
      rw [Bool.and_eq_true, decide_eq_true_eq] at hc'
      exact hc'.1
  freed := h.countP_active.trans h.length_used
  accepts hroom := by
    have hcount : w.count < cliMaxClients := by rwa [h.count, h.length_used]
    rw [h.freeSlot, if_pos hcount]
    exact ⟨hcount, rfl⟩

/-! ### Coming and leaving -/

/-- A client that is let in takes the first record behind those in use. -/
theorem Packed.connect (hnew : (w.conns.lookup fd).isNone) :
    ∃ used' free', Packed (w.onNewConnection fd) used' free' := by
  unfold onNewConnection
  by_cases hroom : w.count < cliMaxClients
  · rw [if_neg (not_le.mpr hroom), h.freeSlot, if_pos hroom, elim_some]
    have hsize := h.size
    rw [h.clients, length_append, ← h.count] at hsize
    obtain ⟨c, free', rfl⟩ : ∃ c free', free = c :: free' :=
      exists_cons_of_ne_nil (ne_nil_of_length_pos (by omega))
    have hclients : (w.acceptInto w.count fd).clients =
        (used ++ [acceptedClient fd c]) ++ free' := by
      change w.clients.modify w.count (acceptedClient fd) = _
      rw [h.clients, h.count, Slots.modify_eq_set (x := c) (by simp)]
      simp
    have hmem : fd ∉ w.conns.map Prod.fst := by
      intro hfd
      obtain ⟨⟨fd', conn⟩, hconn, rfl⟩ := mem_map.mp hfd
      rw [Option.isNone_iff_eq_none, lookup_eq_none_iff] at hnew
      simpa using hnew (fd', conn) hconn
    refine ⟨used ++ [acceptedClient fd c], free', hclients, ?_, h.frames, ?_, ?_, ?_, ?_, ?_,
      ?_⟩
    · change (w.clients.modify w.count (acceptedClient fd)).length = _
      rw [length_modify]
      exact h.size
    · change (used ++ [acceptedClient fd c]).map (·.fd) = (fd :: w.conns.map Prod.fst).reverse
      rw [map_append, h.fds, reverse_cons]
      rfl
    · exact nodup_cons.mpr ⟨hmem, h.nodup⟩
    · change w.count + 1 = _
      rw [length_append, h.count]
      rfl
    · exact forall_mem_append.mpr ⟨h.active, forall_mem_singleton.mpr rfl⟩
    · exact fun c' hc' => h.idle c' (mem_cons_of_mem c hc')
    intro i fd' conn hi
    change ((fd, w.accepted) :: w.conns).reverse[i]? = some (fd', conn) at hi
    change Function.update w.owner w.count (some w.accepted) i = some conn
    have hlength : w.conns.reverse.length = w.count := by
      rw [length_reverse, h.count, h.length_used]
    rw [reverse_cons] at hi
    rcases Nat.lt_trichotomy i w.count with hlt | rfl | hgt
    · rw [getElem?_append_left (by omega)] at hi
      rw [Function.update_of_ne (Nat.ne_of_lt hlt)]
      exact h.owners i fd' conn hi
    · rw [← hlength, getElem?_concat_length] at hi
      rw [Function.update_self]
      exact congrArg some (Prod.mk.inj (some.inj hi)).2
    · rw [getElem?_eq_none (by rwa [length_append, hlength])] at hi
      cases hi
  · rw [if_pos (not_lt.mp hroom)]
    exact ⟨used, free, h⟩

end

/-- What `remove_client` does to the records on a descriptor, but for giving one back. -/
def endShell (fd : Int) (c : Client) : Client :=
  if c.fd = fd && c.shellActive then World.closeShell c else c

@[simp] theorem fd_endShell (fd : Int) (c : Client) : (endShell fd c).fd = c.fd := by
  unfold endShell
  split <;> rfl

@[simp] theorem active_endShell (fd : Int) (c : Client) : (endShell fd c).active = c.active := by
  unfold endShell
  split <;> rfl

theorem map_fd_endShell (fd : Int) (cs : List Client) :
    (cs.map (endShell fd)).map (·.fd) = cs.map (·.fd) := by
  rw [List.map_map]
  exact map_congr_left fun c _ => fd_endShell fd c

theorem map_fd_freeClient (cs : List Client) (i : Nat) :
    (cs.modify i World.freeClient).map (·.fd) = cs.map (·.fd) := by
  refine ext_getElem? fun j => ?_
  rw [getElem?_map, getElem?_map, getElem?_modify]
  by_cases hij : i = j
  · subst hij
    cases cs[i]? <;> simp [freeClient]
  · simp [hij]

theorem findClient_eq_some {j : Nat} (h : w.findClient fd = some j) :
    j < w.count ∧ (w.clients.map (·.fd))[j]? = some fd := by
  obtain ⟨hlt, hfound, -⟩ := findIdx?_eq_some_iff_getElem.mp h
  rw [length_take] at hlt
  rw [getElem_take, Bool.and_eq_true, decide_eq_true_eq] at hfound
  refine ⟨by omega, ?_⟩
  rw [getElem?_map, getElem?_eq_getElem (by omega), map_some, hfound.1]

/-- The record of the descriptor is freed where it stands, and the connection is gone. -/
theorem Packed.removeClient (h : Packed w used free) (hi : used[i]? = some c) :
    w.removeClient c.fd =
      { w with
        clients := (used.map (endShell c.fd)).modify i World.freeClient ++ free.map (endShell c.fd)
        conns := w.conns.filter fun x => x.1 ≠ c.fd
        count := w.count - 1 } := by
  have hclients : (w.closeFd c.fd).clients =
      used.map (endShell c.fd) ++ free.map (endShell c.fd) := by
    rw [← map_append, ← h.clients]
    rfl
  have hlength : w.count = (used.map (endShell c.fd)).length := by
    rw [h.count, length_map]
  have hfind : ((w.closeFd c.fd).clients.take (w.closeFd c.fd).count).findIdx?
      (fun c' => c'.fd = c.fd) = some i := by
    change ((w.closeFd c.fd).clients.take w.count).findIdx? _ = _
    rw [hclients, hlength, take_left]
    refine findIdx?_of_nodup (c := endShell c.fd c) ?_ ?_ ?_ ?_
    · rw [map_fd_endShell]
      exact h.nodup_fds
    · rw [getElem?_map, hi, map_some]
    · simp
    · simp
  obtain ⟨hlt, -⟩ := List.getElem?_eq_some_iff.mp hi
  have hmodify : (w.closeFd c.fd).clients.modify i freeClient =
      (used.map (endShell c.fd)).modify i freeClient ++ free.map (endShell c.fd) := by
    have hc : (used.map (endShell c.fd))[i]? = some (endShell c.fd c) := by
      rw [getElem?_map, hi, map_some]
    rw [hclients, Slots.modify_eq_set hc, Slots.modify_eq_set (x := endShell c.fd c),
      set_append_left _ _ (by rwa [length_map])]
    rwa [getElem?_append_left (by rwa [length_map])]
  unfold World.removeClient
  dsimp only
  rw [hfind]
  dsimp only [modifyClient]
  rw [hmodify]
  rfl

theorem Packed.last (h : Packed w used free) (hconns : w.conns = (fd, conn) :: rest) :
    ∃ init c, used = init ++ [c] ∧ c.fd = fd ∧ init.map (·.fd) = (rest.map Prod.fst).reverse := by
  have hfds := h.fds
  rw [hconns, map_cons, reverse_cons] at hfds
  obtain ⟨init, last, hused, hinit, hlast⟩ := map_eq_append_iff.mp hfds
  obtain ⟨c, rfl, hc⟩ := map_eq_singleton_iff.mp hlast
  exact ⟨init, c, hused, hc, hinit⟩

/-- The client that came last leaves, and the records in use still stand first. -/
theorem Packed.leave_last (h : Packed w used free) (hconns : w.conns = (fd, conn) :: rest) :
    ∃ used' free', Packed (w.removeClient fd) used' free' := by
  obtain ⟨init, c, rfl, rfl, hinit⟩ := h.last hconns
  have hnodup := h.nodup
  rw [hconns, map_cons, nodup_cons] at hnodup
  have hfilter : w.conns.filter (fun x => x.1 ≠ c.fd) = rest := by
    rw [hconns, filter_cons_of_neg (by simp), filter_eq_self]
    intro x hx
    rw [decide_eq_true_eq]
    intro heq
    exact hnodup.1 (mem_map.mpr ⟨x, hx, heq⟩)
  have hcount : w.count = init.length + 1 := by
    rw [h.count, length_append]
    rfl
  have hmodify : ((init ++ [c]).map (endShell c.fd)).modify init.length freeClient =
      init.map (endShell c.fd) ++ [freeClient (endShell c.fd c)] := by
    rw [Slots.modify_eq_set (x := endShell c.fd c) (by simp)]
    simp
  have hremove := h.removeClient (i := init.length) (c := c) (by simp)
  rw [hmodify, hfilter, hcount, Nat.add_sub_cancel] at hremove
  rw [hremove]
  refine ⟨init.map (endShell c.fd), freeClient (endShell c.fd c) :: free.map (endShell c.fd),
    ?_, ?_, h.frames, ?_, hnodup.2, ?_, ?_, ?_, ?_⟩
  · rw [append_assoc]
    rfl
  · have hsize := h.size
    rw [h.clients] at hsize
    simpa using hsize
  · rw [map_fd_endShell]
    exact hinit
  · rw [length_map]
  · intro c' hc'
    obtain ⟨c'', hc'', rfl⟩ := mem_map.mp hc'
    rw [active_endShell]
    exact h.active c'' (mem_append_left _ hc'')
  · refine forall_mem_cons.mpr ⟨rfl, ?_⟩
    intro c' hc'
    obtain ⟨c'', hc'', rfl⟩ := mem_map.mp hc'
    rw [active_endShell]
    exact h.idle c'' hc''
  intro i fd' conn' hi
  refine h.owners i fd' conn' ?_
  rw [hconns, reverse_cons]
  exact (getElem?_append_left (List.getElem?_eq_some_iff.mp hi).1).trans hi

/-- Another client leaves, and the one that came last is not found any more. -/
theorem Packed.leave_other (h : Packed w used free) {fd' : Int} {conn' : Nat}
    (hconns : w.conns = (fd', conn') :: rest) (hleaves : (fd, conn) ∈ w.conns) (hne : fd' ≠ fd) :
    ¬ Consistent (w.removeClient fd) := by
  intro hconsistent
  obtain ⟨i, c, hi, rfl, -⟩ := h.slot hleaves
  have hremove := h.removeClient hi
  obtain ⟨init, last, rfl, rfl, -⟩ := h.last hconns
  rw [h.count, length_append, length_singleton, Nat.add_sub_cancel] at hremove
  rw [hremove] at hconsistent
  have hstays : (last.fd, conn') ∈ w.conns.filter fun x => x.1 ≠ c.fd := by
    rw [hconns, filter_cons_of_pos (by simpa using hne)]
    exact mem_cons_self
  -- its record stands behind those that are searched, and no other has its descriptor
  obtain ⟨j, hj, -⟩ := hconsistent.found last.fd conn' hstays
  obtain ⟨hlt, hfd⟩ := findClient_eq_some hj
  dsimp only at hlt hfd
  rw [map_append, map_fd_freeClient, map_fd_endShell, getElem?_append_left
    (by rw [length_map, length_append]; omega), getElem?_map] at hfd
  obtain ⟨d, hd, hdfd⟩ := map_eq_some_iff.mp hfd
  have heq : j = init.length := slot_eq h.nodup_fds hd (by simp) hdfd
  omega

end Packed

section Histories

variable {w : World} {used free : List Client}

theorem Packed.idle_eq (h : Packed w used free) : w.idle = true := by
  rw [World.idle, h.frames]
  rfl

theorem Packed.clientStep_leave (h : Packed w used free) {e : ClientEvent}
    (he : e = .fail fd ∨ e = .close fd) :
    clientStep w e = if (w.conns.lookup fd).isSome then w.removeClient fd else w := by
  rcases he with rfl | rfl
  · simp only [clientStep, ClientEvent.event, cliStep, h.idle_eq, true_and]
  · simp only [clientStep, ClientEvent.event, cliStep, h.idle_eq, if_true, onClientData]
    cases w.conns.lookup fd with
    | none => rfl
    | some conn =>
      split <;> rfl

theorem Packed.clientStep_connect (h : Packed w used free) (fd : Int) :
    ∃ used' free', Packed (clientStep w (.connect fd)) used' free' := by
  simp only [clientStep, ClientEvent.event, cliStep, h.idle_eq, true_and]
  split
  · rename_i hnew
    exact h.connect hnew
  · exact ⟨used, free, h⟩

theorem mem_of_lookup (h : (w.conns.lookup fd).isSome = true) : ∃ conn, (fd, conn) ∈ w.conns := by
  obtain ⟨conn, hconn⟩ := isSome_iff_exists.mp h
  obtain ⟨before, after, heq, -⟩ := lookup_eq_some_iff.mp hconn
  exact ⟨conn, heq ▸ mem_append_right before mem_cons_self⟩

theorem Packed.leave (h : Packed w used free) {e : ClientEvent} (he : e = .fail fd ∨ e = .close fd)
    (hlast : (w.conns.lookup fd).isSome = true → w.conns.head?.map Prod.fst = some fd) :
    ∃ used' free', Packed (clientStep w e) used' free' := by
  rw [h.clientStep_leave he]
  split
  · rename_i hthere
    obtain ⟨⟨fd', conn⟩, hhead, rfl⟩ := map_eq_some_iff.mp (hlast hthere)
    obtain ⟨rest, hconns⟩ := head?_eq_some_iff.mp hhead
    exact h.leave_last hconns
  · exact ⟨used, free, h⟩

theorem Packed.last_of_consistent (h : Packed w used free) {e : ClientEvent}
    (he : e = .fail fd ∨ e = .close fd) (hconsistent : Consistent (clientStep w e))
    (hthere : (w.conns.lookup fd).isSome = true) : w.conns.head?.map Prod.fst = some fd := by
  rw [h.clientStep_leave he, if_pos hthere] at hconsistent
  obtain ⟨conn, hconn⟩ := mem_of_lookup hthere
  cases hconns : w.conns with
  | nil =>
    rw [hconns] at hconn
    cases hconn
  | cons head rest =>
    obtain ⟨fd', conn'⟩ := head
    by_contra hne
    have hother : fd' ≠ fd := by simpa using hne
    exact h.leave_other hconns hconn hother hconsistent

end Histories

/-- The connected clients, and nobody else, have a record that is found, exactly as long as they
leave in the reverse order of their coming. -/
theorem consistent_iff (es : List ClientEvent) :
    (∀ es', es' <+: es → Consistent (run clientStep cliInit es')) ↔
      Along clientStep LastIn cliInit es := by
  have hstep : ∀ w e, (∃ used free, Packed w used free) → True → LastIn w e →
      ∃ used free, Packed (clientStep w e) used free := by
    rintro w e ⟨used, free, h⟩ - hlast
    cases e with
    | connect fd => exact h.clientStep_connect fd
    | fail fd => exact h.leave (.inl rfl) hlast
    | close fd => exact h.leave (.inr rfl) hlast
  have hloses : ∀ w e, (∃ used free, Packed w used free) → True → Consistent (clientStep w e) →
      LastIn w e := by
    rintro w e ⟨used, free, h⟩ - hconsistent
    cases e with
    | connect fd => exact trivial
    | fail fd => exact h.last_of_consistent (.inl rfl) hconsistent
    | close fd => exact h.last_of_consistent (.inr rfl) hconsistent
  exact along_iff_forall (fun w ⟨_, _, h⟩ => h.consistent) hstep hloses ⟨_, _, packed_cliInit⟩
    (along_of_forall (fun _ _ _ => trivial) _)

/-- Of two clients the first leaves, and the second is not found. -/
theorem consistent_first_out :
    ¬ Consistent (run clientStep cliInit [.connect 7, .connect 8, .close 7]) := by
  intro h
  obtain ⟨i, hi, -⟩ := h.found 8 1 (by decide +kernel)
  have hnone : (run clientStep cliInit [.connect 7, .connect 8, .close 7]).findClient 8 = none := by
    decide +kernel
  rw [hnone] at hi
  cases hi

end Portal.Cli
