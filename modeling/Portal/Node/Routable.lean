import Portal.Node.Table

/-!
Whether a ready peer can be reached through the router. `modules/mod_node/mod_node.c` registers
`/<name>/*` when a direct peer becomes ready or an indirect one is advertised, lists it in the
record, and unregisters it when the record is lost, swept or reconnected. An inbound record lists
its path also when the registration fails.
-/

namespace Portal

open List Runs NodePeer CStr

variable {P : Type}

/-! ### The router -/

theorem peerPath_bytes (name : CStr) :
    (peerPath name).bytes = (CStr.lit "/").bytes ++ name.bytes ++ (CStr.lit "/*").bytes := by
  have hnul : (0 : UInt8) ∉ (lit "/").bytes ++ name.bytes ++ (lit "/*").bytes := by
    simp only [mem_append, not_or]
    exact ⟨⟨(lit "/").nulFree, name.nulFree⟩, (lit "/*").nulFree⟩
  exact cText_eq_self hnul

theorem peerPath_injective : Function.Injective peerPath := by
  intro a b h
  have hbytes := congrArg bytes h
  rw [peerPath_bytes, peerPath_bytes, append_left_inj, append_right_inj] at hbytes
  cases a
  cases b
  cases hbytes
  rfl

def belowPeer (name rest : CStr) : CStr :=
  .concat [.lit "/", name, .lit "/", rest]

theorem belowPeer_bytes (name rest : CStr) :
    (belowPeer name rest).bytes = (slash :: name.bytes) ++ slash :: rest.bytes := by
  have hslash : (CStr.lit "/").bytes = [slash] := by decide
  have hempty : (lit "").bytes = [] := by decide
  simp [belowPeer, CStr.concat, CStr.append, hslash, hempty]

theorem peerPath_mem_fallback {name : CStr} (hlen : name.bytes.length ≤ 63) (rest : CStr) :
    peerPath name ∈ fallbackPatterns (belowPeer name rest) := by
  have hwild : ((belowPeer name rest).truncate (portalMaxPathLen - 1)).bytes =
      (slash :: name.bytes) ++ slash :: rest.bytes.take (1021 - name.bytes.length) := by
    change (belowPeer name rest).bytes.take 1023 = _
    have hroom : 1023 - (name.bytes.length + 1) = (1021 - name.bytes.length) + 1 := by omega
    rw [belowPeer_bytes, take_append, take_of_length_le (by simp; omega),
      length_cons, hroom, take_succ_cons]
  have hat : wildcardAt ((slash :: name.bytes) ++ slash ::
      rest.bytes.take (1021 - name.bytes.length)) (name.bytes.length + 1) = peerPath name := by
    have hstar : ((lit "*").truncate
        (portalMaxPathLen - (name.bytes.length + 1) - 1 - 1)).bytes = (lit "*").bytes := by
      rw [truncate_eq_self]
      rw [portalMaxPathLen, show (lit "*").bytes.length = 1 by decide]
      omega
    have hlits : (lit "/").bytes = [slash] ∧
        (lit "/*").bytes = slash :: (lit "*").bytes := by decide
    rw [wildcardAt, hstar, peerPath, hlits.1, hlits.2, take_append,
      take_of_length_le (by simp), length_cons]
    simp
  rw [fallbackPatterns, hwild, ← hat]
  apply mem_append_left
  apply mem_map_of_mem
  rw [mem_filter, mem_reverse, mem_range]
  constructor
  · simp
  · simp

/-- While its pattern is registered, nothing below the name of a peer is NOT_FOUND. -/
theorem dispatch_below {inst : PortalInstance} {name : CStr} (hlen : name.bytes.length ≤ 63)
    (hreg : (portalPathLookup inst.paths (peerPath name)).isSome) (rest : CStr)
    (ctx : Option PortalCtx) : dispatch inst (belowPeer name rest) ctx ≠ .notFound := by
  have hfound : (wildcardFallback inst.paths (belowPeer name rest)).isSome := by
    rw [wildcardFallback_eq, find?_isSome]
    exact ⟨_, peerPath_mem_fallback hlen rest, hreg⟩
  have hresolve : (resolve inst.paths (belowPeer name rest)).isSome := by
    rw [resolve]
    split
    · rfl
    split
    · rfl
    · obtain ⟨pattern, hpattern⟩ := Option.isSome_iff_exists.mp hfound
      obtain ⟨e, he⟩ := exists_entry_of_wildcardFallback hpattern
      simp [hpattern, portalPathLookup, he]
  obtain ⟨⟨modName, route⟩, hroute⟩ := Option.isSome_iff_exists.mp hresolve
  rw [dispatch, hroute]
  simp only
  split
  · rintro ⟨⟩
  rw [invoke]
  split
  · rintro ⟨⟩
  split
  · rintro ⟨⟩
  · split
    · rintro ⟨⟩
    · rintro ⟨⟩

/-! ### Property and condition -/

/-- Every ready direct peer has its path, so that no message to it is NOT_FOUND. -/
def Routable (s : NodeState P) : Prop :=
  ∀ p ∈ s.peers, p.isIndirect = false → p.ready = true → p.dead = false →
    portalPathLookup s.tree (peerPath p.name) = some (.lit "node") ∧
    ∀ inst : PortalInstance, inst.paths = s.tree → ∀ rest ctx,
      dispatch inst (belowPeer p.name rest) ctx ≠ .notFound

/-- No other module owns the path of a peer of this name. -/
def PathFree (s : NodeState P) (name : CStr) : Prop :=
  portalPathLookup s.tree (peerPath name) = none ∨
    portalPathLookup s.tree (peerPath name) = some (.lit "node")

/-- The names fit their buffers, as those that are read from the wire and from the
configuration do. -/
def PeerNamesFit (names : List CStr) : Prop := ∀ n ∈ names, n.bytes.length ≤ 63

/-- A connection makes a new record only for a name that no record has, and a record becomes ready
only while no other module owns its path. -/
def RouteSafe (s : NodeState P) : NodeEvent P → Prop
  | .connect name _ _ _ => PeerNamesFit [name]
  | .handshake fd name advertised _ _ => PeerNamesFit (name :: advertised) ∧
      ∀ c, s.conn fd = some c →
        (∀ id, c.hs.bind HsContext.peer = some id →
          ∀ p ∈ s.peers, p.id = id → p.ready = false → PathFree s p.name) ∧
        (c.hs.bind HsContext.peer = none → findPeerByName s.peers name = none →
          findPeerAny s.peers name = none ∧ PathFree s name)
  | .exchangeEnd _ _ advertised _ => PeerNamesFit advertised
  | _ => True

/-- Records, names and paths fit together. -/
structure RoutesInv (s : NodeState P) : Prop where
  tree : TreeOk s.tree
  fresh : ∀ p ∈ s.peers, p.id < s.nextId
  ids : (s.peers.map NodePeer.id).Nodup
  names : (s.peers.map NodePeer.name).Nodup
  short : ∀ p ∈ s.peers, p.name.bytes.length ≤ 63
  paths : ∀ p ∈ s.peers, ∀ path ∈ p.paths, path = peerPath p.name
  alive : ∀ p ∈ s.peers, p.ready = true → p.dead = false
  ready : ∀ p ∈ s.peers, p.isIndirect = false → p.ready = true →
    portalPathLookup s.tree (peerPath p.name) = some (.lit "node")

theorem routesInv_initial {tree : PortalPathTree} (htree : TreeOk tree)
    (auth : PortalAuthRegistry) : RoutesInv (NodeState.initial tree auth : NodeState P) := by
  refine ⟨htree, ?_, nodup_nil, nodup_nil, ?_, ?_, ?_, ?_⟩ <;> rintro p ⟨⟩

theorem RoutesInv.routable {s : NodeState P} (h : RoutesInv s) : Routable s := by
  intro p hp hdir hready _
  have hpath := h.ready p hp hdir hready
  refine ⟨hpath, fun inst hinst rest ctx => dispatch_below (h.short p hp) ?_ rest ctx⟩
  rw [hinst, hpath]
  rfl

/-! ### Records that are changed in place -/

/-- The record keeps its address and name, lists no new path, and does not become ready. -/
structure KeepsRoute (p p' : NodePeer) : Prop where
  id : p'.id = p.id
  name : p'.name = p.name
  isIndirect : p'.isIndirect = p.isIndirect
  paths : p'.paths ⊆ p.paths
  ready : p'.ready = true → p.ready = true ∧ p'.dead = p.dead

theorem KeepsRoute.refl (p : NodePeer) : KeepsRoute p p :=
  ⟨rfl, rfl, rfl, fun _ h => h, fun h => ⟨h, rfl⟩⟩

theorem KeepsRoute.trans {p q r : NodePeer} (h : KeepsRoute p q) (h' : KeepsRoute q r) :
    KeepsRoute p r :=
  ⟨h'.id.trans h.id, h'.name.trans h.name, h'.isIndirect.trans h.isIndirect,
    fun _ hx => h.paths (h'.paths hx), fun hr =>
      ⟨(h.ready (h'.ready hr).1).1, (h'.ready hr).2.trans (h.ready (h'.ready hr).1).2⟩⟩

section InPlace

variable {s s' : NodeState P}

/-- Records changed in place, and a registry in which no path of a ready peer is lost. -/
theorem RoutesInv.eachPeer (h : RoutesInv s) (he : EachPeer KeepsRoute s s')
    (htree : TreeOk s'.tree)
    (hkeep : ∀ p' ∈ s'.peers, p'.isIndirect = false → p'.ready = true →
      portalPathLookup s'.tree (peerPath p'.name) = portalPathLookup s.tree (peerPath p'.name)) :
    RoutesInv s' where
  tree := htree
  fresh p' hp' := by
    obtain ⟨p, hp, hk⟩ := he.mem hp'
    rw [hk.id, he.nextId]
    exact h.fresh p hp
  ids := by
    rw [he.map_eq fun _ _ hk => hk.id]
    exact h.ids
  names := by
    rw [he.map_eq fun _ _ hk => hk.name]
    exact h.names
  short p' hp' := by
    obtain ⟨p, hp, hk⟩ := he.mem hp'
    rw [hk.name]
    exact h.short p hp
  paths p' hp' path hpath := by
    obtain ⟨p, hp, hk⟩ := he.mem hp'
    rw [hk.name]
    exact h.paths p hp path (hk.paths hpath)
  alive p' hp' hready := by
    obtain ⟨p, hp, hk⟩ := he.mem hp'
    rw [(hk.ready hready).2]
    exact h.alive p hp (hk.ready hready).1
  ready p' hp' hdir hready := by
    obtain ⟨p, hp, hk⟩ := he.mem hp'
    rw [hkeep p' hp' hdir hready, hk.name]
    exact h.ready p hp (hk.isIndirect ▸ hdir) (hk.ready hready).1

theorem RoutesInv.sameTree (h : RoutesInv s) (he : EachPeer KeepsRoute s s')
    (htree : s'.tree = s.tree) : RoutesInv s' :=
  h.eachPeer he (htree ▸ h.tree) fun _ _ _ _ => by rw [htree]

theorem RoutesInv.of_eq (h : RoutesInv s) (hp : s'.peers = s.peers)
    (hid : s'.nextId = s.nextId) (htree : s'.tree = s.tree) : RoutesInv s' :=
  h.sameTree (.of_eq .refl hp hid) htree

theorem unregisterAll_spec {tree : PortalPathTree} (h : TreeOk tree) (paths : List CStr) :
    TreeOk (unregisterAll tree paths) ∧ ∀ path ∉ paths,
      portalPathLookup (unregisterAll tree paths) path = portalPathLookup tree path := by
  induction paths generalizing tree with
  | nil => exact ⟨h, fun _ _ => rfl⟩
  | cons q paths ih =>
    obtain ⟨hok, hkeep⟩ := ih (h.unregister q)
    refine ⟨hok, fun path hpath => ?_⟩
    obtain ⟨hne, hrest⟩ := not_or.mp (mem_cons.not.mp hpath)
    exact (hkeep path hrest).trans (lookup_unregister_ne h hne)

theorem RoutesInv.unregisters (h : RoutesInv s) (he : EachPeer KeepsRoute s s')
    {paths : List CStr} (htree : s'.tree = unregisterAll s.tree paths)
    (hfree : ∀ p' ∈ s'.peers, p'.isIndirect = false → p'.ready = true →
      peerPath p'.name ∉ paths) : RoutesInv s' := by
  obtain ⟨hok, hkeep⟩ := unregisterAll_spec h.tree paths
  apply h.eachPeer he
  · rw [htree]
    exact hok
  · intro p' hp' hdir hready
    rw [htree]
    exact hkeep _ (hfree p' hp' hdir hready)

theorem RoutesInv.index_eq (h : RoutesInv s) {j k : Nat} {p q : NodePeer}
    (hp : s.peers[j]? = some p) (hq : s.peers[k]? = some q) (hname : p.name = q.name) :
    j = k :=
  index_eq_of_nodup_map h.names hp hq hname

theorem keepsRoute_lose (p : NodePeer) (now : Nat) : KeepsRoute p (p.lose now) :=
  ⟨rfl, rfl, rfl, fun _ h => absurd h not_mem_nil, fun h => absurd h Bool.false_ne_true⟩

theorem keepsRoute_markDead (p : NodePeer) (now : Nat) : KeepsRoute p (p.markDead now) :=
  ⟨rfl, rfl, rfl, fun _ h => h, fun h => absurd h Bool.false_ne_true⟩

theorem keepsRoute_dropWorker (p : NodePeer) (fd : Int) (now : Nat) :
    KeepsRoute p (p.dropWorker fd now) := by
  rw [dropWorker]
  split
  · exact ⟨rfl, rfl, rfl, fun _ h => absurd h not_mem_nil, fun h => absurd h Bool.false_ne_true⟩
  · exact ⟨rfl, rfl, rfl, fun _ h => h, fun h => ⟨h, rfl⟩⟩

theorem RoutesInv.losePeerAt (h : RoutesInv s) (i : Nat) : RoutesInv (s.losePeerAt i) := by
  apply h.unregisters (eachPeer_losePeerAt .refl (fun p _ => keepsRoute_lose p _) i) rfl
  intro p' hp' hdir hready hmem
  -- the path was listed by a record that is lost, and the record of this name is not
  obtain ⟨k, hk⟩ := mem_iff_getElem?.mp hp'
  obtain ⟨p, hp, rfl⟩ := Option.map_eq_some_iff.mp (getElem?_mapIdx .. ▸ hk)
  obtain ⟨paths, hpaths, hpath⟩ := mem_flatten.mp hmem
  obtain ⟨j, hj⟩ := mem_iff_getElem?.mp hpaths
  obtain ⟨q, hq, rfl⟩ := Option.map_eq_some_iff.mp (getElem?_mapIdx .. ▸ hj)
  simp only at hready hpath
  split at hready
  · cases hready
  rename_i hkept
  rw [if_neg hkept] at hpath
  split at hpath
  · rename_i hlost
    have hname := peerPath_injective (h.paths q (mem_of_getElem? hq) _ hpath)
    obtain rfl := h.index_eq hp hq hname
    rw [hp] at hq
    cases hq
    exact hkept hlost
  · cases hpath

/-- A record that is still ready without the worker still lists its path. -/
theorem paths_dropWorker {p : NodePeer} {fd : Int} {now : Nat}
    (hready : (p.dropWorker fd now).ready = true) : (p.dropWorker fd now).paths = p.paths := by
  rw [dropWorker] at hready ⊢
  split
  · rename_i hlast
    rw [if_pos hlast] at hready
    cases hready
  · rfl

theorem RoutesInv.dropWorkerAt (h : RoutesInv s) {i : Nat} {p : NodePeer}
    (hp : s.peers[i]? = some p) (fd : Int) :
    RoutesInv { s with
      peers := s.peers.modify i fun p => p.dropWorker fd s.clock
      tree := if (p.dropWorker fd s.clock).paths = [] then unregisterAll s.tree p.paths
        else s.tree } := by
  have he {tree : PortalPathTree} : EachPeer KeepsRoute s
      { s with peers := s.peers.modify i fun p => p.dropWorker fd s.clock, tree } :=
    eachPeer_modify .refl (fun p _ => keepsRoute_dropWorker p fd _) i rfl rfl
  split
  · rename_i hnone
    apply h.unregisters he rfl
    intro q' hq' hdir hready hmem
    obtain ⟨k, hk⟩ := mem_iff_getElem?.mp hq'
    obtain ⟨q, hq, hkeep⟩ := he.peer k q' hk
    have hname := peerPath_injective (h.paths p (mem_of_getElem? hp) _ hmem)
    obtain rfl := h.index_eq hp hq (hname.symm.trans hkeep.name)
    rw [getElem?_modify, hp] at hk
    simp only [Option.map_eq_map, Option.map_some, if_true] at hk
    cases hk
    rw [← paths_dropWorker hready, hnone] at hmem
    cases hmem
  · exact h.sameTree he rfl

theorem RoutesInv.markPeerDeadByFd (h : RoutesInv s) (fd : Int) :
    RoutesInv (markPeerDeadByFd s fd) := by
  rw [Portal.markPeerDeadByFd]
  split
  · exact h
  rename_i i _
  split
  · exact h
  rename_i p hp
  split
  · split
    · exact h
    · exact h.losePeerAt i
  · exact h.dropWorkerAt hp fd

end InPlace

section Operations

variable {s s' : NodeState P}

variable (p : NodePeer) (i : Nat)

theorem NodePeer.moved_name : (p.moved i).name = p.name := by
  rw [moved]
  split <;> rfl

theorem NodePeer.moved_paths : (p.moved i).paths = p.paths := by
  rw [moved]
  split <;> rfl

theorem NodePeer.moved_ready : (p.moved i).ready = p.ready := by
  rw [moved]
  split <;> rfl

theorem NodePeer.moved_dead : (p.moved i).dead = p.dead := by
  rw [moved]
  split <;> rfl

/-- The record that is removed takes its paths with it. -/
theorem RoutesInv.remove (h : RoutesInv s) {i : Nat} {p : NodePeer} (hp : s.peers[i]? = some p)
    (hpeers : s'.peers = s.peers) (hid : s'.nextId = s.nextId)
    (htree : s'.tree = unregisterAll s.tree p.paths) : RoutesInv (s'.removeAt i) := by
  have hi : i < s'.peers.length := by
    rw [hpeers]
    exact (List.getElem?_eq_some_iff.mp hp).1
  obtain ⟨hok, hkeep⟩ := unregisterAll_spec h.tree p.paths
  have hrest : (s'.removeAt i).tree = unregisterAll s.tree p.paths := by
    rw [NodeState.removeAt, if_pos hi]
    exact htree
  have hmem {q' : NodePeer} (hq' : q' ∈ (s'.removeAt i).peers) :
      ∃ q ∈ s.peers.eraseIdx i, q' = q.moved i := by
    rw [removeAt_peers hi, hpeers] at hq'
    obtain ⟨q, hq, rfl⟩ := mem_map.mp hq'
    exact ⟨q, hq, rfl⟩
  constructor
  · rw [hrest]
    exact hok
  · intro q' hq'
    obtain ⟨q, hq, rfl⟩ := hmem hq'
    rw [moved_id, removeAt_nextId, hid]
    exact h.fresh q (mem_of_mem_eraseIdx hq)
  · rw [map_removeAt hi fun q => q.moved_id i, hpeers]
    exact h.ids.eraseIdx i
  · rw [map_removeAt hi fun q => q.moved_name i, hpeers]
    exact h.names.eraseIdx i
  · intro q' hq'
    obtain ⟨q, hq, rfl⟩ := hmem hq'
    rw [moved_name]
    exact h.short q (mem_of_mem_eraseIdx hq)
  · intro q' hq' path hpath
    obtain ⟨q, hq, rfl⟩ := hmem hq'
    rw [moved_paths] at hpath
    rw [moved_name]
    exact h.paths q (mem_of_mem_eraseIdx hq) path hpath
  · intro q' hq' hready
    obtain ⟨q, hq, rfl⟩ := hmem hq'
    rw [moved_ready] at hready
    rw [moved_dead]
    exact h.alive q (mem_of_mem_eraseIdx hq) hready
  intro q' hq' hdir hready
  obtain ⟨q, hq, rfl⟩ := hmem hq'
  rw [moved_isIndirect] at hdir
  rw [moved_ready] at hready
  rw [moved_name, hrest, hkeep]
  · exact h.ready q (mem_of_mem_eraseIdx hq) hdir hready
  -- the removed record has another name
  intro hpath
  have hname := peerPath_injective (h.paths p (mem_of_getElem? hp) _ hpath)
  obtain ⟨k, hki, hk⟩ := mem_eraseIdx_iff_getElem?.mp hq
  exact hki (h.index_eq hk hp hname)

/-- A new record of a name that no record has, with a registry that has lost nothing. -/
theorem RoutesInv.appendPeer (h : RoutesInv s) {mk : Nat → NodePeer} {tree : PortalPathTree}
    (hid : ∀ id, (mk id).id = id)
    (hname : ∀ p ∈ s.peers, p.name ≠ (mk s.nextId).name)
    (hshort : (mk s.nextId).name.bytes.length ≤ 63)
    (hpaths : ∀ path ∈ (mk s.nextId).paths, path = peerPath (mk s.nextId).name)
    (halive : (mk s.nextId).ready = true → (mk s.nextId).dead = false)
    (htree : TreeOk tree)
    (hkeep : ∀ p ∈ s.peers, portalPathLookup tree (peerPath p.name) =
      portalPathLookup s.tree (peerPath p.name))
    (hready : (mk s.nextId).isIndirect = false → (mk s.nextId).ready = true →
      portalPathLookup tree (peerPath (mk s.nextId).name) = some (.lit "node")) :
    RoutesInv ((s.append mk).setTree tree) := by
  have hold : RoutesInv (s.setTree tree) :=
    h.eachPeer (.of_eq .refl rfl rfl) htree fun p hp _ _ => hkeep p hp
  constructor
  · exact htree
  · exact fresh_append hid h.fresh
  · exact nodup_append_ids hid h.fresh h.ids
  · exact nodup_append_map name h.names hname
  · intro p hp
    rcases NodeState.mem_append hp with hp | rfl
    · exact h.short p hp
    · exact hshort
  · intro p hp
    rcases NodeState.mem_append hp with hp | rfl
    · exact h.paths p hp
    · exact hpaths
  · intro p hp
    rcases NodeState.mem_append hp with hp | rfl
    · exact h.alive p hp
    · exact halive
  intro p hp
  rcases NodeState.mem_append hp with hp | rfl
  · exact hold.ready p hp
  · exact hready

variable {name : CStr}

/-- The registration of a path that is free, or already the module's. -/
theorem lookup_registerNode (h : RoutesInv s) (hfree : PathFree s name) :
    portalPathLookup (portalPathRegister s.tree (peerPath name) (.lit "node")).1 (peerPath name) =
      some (.lit "node") :=
  lookup_register_self h.tree (by decide) hfree

theorem lookup_registerOther {name name' : CStr} (h : RoutesInv s) (hne : name' ≠ name) :
    portalPathLookup (portalPathRegister s.tree (peerPath name) (.lit "node")).1
      (peerPath name') = portalPathLookup s.tree (peerPath name') :=
  lookup_register_ne h.tree _ fun heq => hne (peerPath_injective heq)

theorem RoutesInv.registerIndirectPeer (h : RoutesInv s) (cfg : NodeConfig) (hubIdx now : Nat)
    (hfit : name.bytes.length ≤ 63) :
    RoutesInv (registerIndirectPeer cfg hubIdx now s name) := by
  rw [Portal.registerIndirectPeer]
  split
  · exact h
  rename_i hnew
  simp only [Bool.or_eq_true, not_or] at hnew
  have hname : ∀ p ∈ s.peers, p.name ≠ name := by
    intro p hp heq
    apply hnew.1.2
    rw [any_eq_true]
    exact ⟨p, hp, decide_eq_true heq⟩
  split
  · apply h.appendPeer
    · intro id
      rfl
    · change ∀ p ∈ s.peers, p.name ≠ name.truncate 63
      rwa [truncate_eq_self hfit]
    · change (name.truncate 63).bytes.length ≤ 63
      rwa [truncate_eq_self hfit]
    · intro path hpath
      rw [truncate_eq_self hfit]
      split at hpath
      · exact mem_singleton.mp hpath
      · cases hpath
    · exact fun _ => rfl
    · exact h.tree.register _ _
    · intro p hp
      exact lookup_registerOther h (hname p hp)
    · rintro ⟨⟩
  · exact h

theorem RoutesInv.registerAll (h : RoutesInv s) (cfg : NodeConfig) (hubIdx now : Nat)
    {names : List CStr} (hfit : PeerNamesFit names) :
    RoutesInv (names.foldl (Portal.registerIndirectPeer cfg hubIdx now) s) := by
  induction names generalizing s with
  | nil => exact h
  | cons name names ih =>
    obtain ⟨hn, hns⟩ := forall_mem_cons.mp hfit
    exact ih (h.registerIndirectPeer cfg hubIdx now hn) hns

theorem RoutesInv.finishOutbound (h : RoutesInv s) (cfg : NodeConfig) (fd : Int) (id now : Nat)
    {advertised : List CStr} (hfit : PeerNamesFit advertised) :
    RoutesInv (finishOutbound cfg s fd id now advertised) := by
  rw [Portal.finishOutbound]
  split
  · exact h.of_eq rfl rfl rfl
  · exact (h.registerAll cfg _ now hfit).of_eq rfl rfl rfl

theorem keepsRoute_backOff {p : NodePeer} (hready : p.ready = false) (now nowUs : Nat) :
    KeepsRoute p (p.backOff now nowUs) :=
  ⟨rfl, rfl, rfl, fun _ h => h, fun h => absurd (hready.symm.trans h) Bool.false_ne_true⟩

theorem RoutesInv.hsAbort (h : RoutesInv s) (fd : Int) (nowUs : Nat) :
    RoutesInv (hsAbort s fd nowUs) := by
  apply h.sameTree (eachPeer_hsAbort .refl (fun _ _ hr => keepsRoute_backOff hr _ _) fd)
  rw [Portal.hsAbort]
  split <;> rfl

theorem keepsRoute_addWorker (fd : Int) : KeepsRoute p (p.addWorker fd) := by
  rw [addWorker]
  split
  · exact ⟨rfl, rfl, rfl, fun _ h => h, fun h => ⟨h, rfl⟩⟩
  · exact .refl p

/-- A record that becomes ready when its path is registered. -/
structure Activates (p p' : NodePeer) : Prop where
  id : p'.id = p.id
  name : p'.name = p.name
  isIndirect : p'.isIndirect = p.isIndirect
  paths : ∀ path ∈ p'.paths, path ∈ p.paths ∨ path = peerPath p.name
  dead : p'.dead = false ∨ p'.dead = p.dead ∧ p'.ready = p.ready

theorem RoutesInv.activate (h : RoutesInv s) {p : NodePeer} (hp : p ∈ s.peers)
    (hfree : PathFree s p.name) {f : NodePeer → NodePeer}
    (hf : ∀ q ∈ s.peers, q.id = p.id → Activates q (f q)) :
    RoutesInv ((s.updPeer p.id f).setTree
      (portalPathRegister s.tree (peerPath p.name) (.lit "node")).1) := by
  have hrefl (q : NodePeer) : Activates q q := ⟨rfl, rfl, rfl, fun _ h => .inl h, .inr ⟨rfl, rfl⟩⟩
  have he : EachPeer Activates s ((s.updPeer p.id f).setTree
      (portalPathRegister s.tree (peerPath p.name) (.lit "node")).1) := by
    have hupd : EachPeer Activates s (s.updPeer p.id f) := eachPeer_updPeer hrefl hf
    exact ⟨hupd.nextId, hupd.length, hupd.peer⟩
  constructor
  · exact h.tree.register _ _
  · intro q' hq'
    obtain ⟨q, hq, ha⟩ := he.mem hq'
    rw [ha.id, he.nextId]
    exact h.fresh q hq
  · rw [he.map_eq fun _ _ ha => ha.id]
    exact h.ids
  · rw [he.map_eq fun _ _ ha => ha.name]
    exact h.names
  · intro q' hq'
    obtain ⟨q, hq, ha⟩ := he.mem hq'
    rw [ha.name]
    exact h.short q hq
  · intro q' hq' path hpath
    obtain ⟨q, hq, ha⟩ := he.mem hq'
    rw [ha.name]
    exact (ha.paths path hpath).elim (h.paths q hq path) fun heq => heq
  · intro q' hq' hready
    obtain ⟨q, hq, ha⟩ := he.mem hq'
    rcases ha.dead with hdead | ⟨hdead, hsame⟩
    · exact hdead
    · rw [hdead]
      exact h.alive q hq (hsame ▸ hready)
  intro q' hq' hdir hready
  obtain ⟨q, hq, rfl⟩ := mem_map.mp hq'
  by_cases hid : q.id = p.id
  · -- addresses are unique, so this is the record itself
    obtain rfl := inj_on_of_nodup_map h.ids hq hp hid
    simp only [if_true]
    rw [(hf q hq rfl).name]
    exact lookup_registerNode h hfree
  · simp only [if_neg hid] at hdir hready ⊢
    have hne : q.name ≠ p.name := fun hname =>
      hid (congrArg NodePeer.id (inj_on_of_nodup_map h.names hq hp hname))
    exact (lookup_registerOther h hne).trans (h.ready q hq hdir hready)

theorem RoutesInv.attachOutbound (h : RoutesInv s) (fd : Int) (id now : Nat)
    (hfree : ∀ p ∈ s.peers, p.id = id → p.ready = false → PathFree s p.name) :
    RoutesInv (attachOutbound s fd id now) := by
  rw [Portal.attachOutbound]
  split
  · exact h
  rename_i p hfind
  have hp := mem_of_find?_eq_some hfind
  have hid : p.id = id := by simpa using find?_some hfind
  have he : EachPeer KeepsRoute s (s.updPeer id fun p => p.addWorker fd) :=
    eachPeer_updPeer .refl fun p _ _ => keepsRoute_addWorker p fd
  have hadd := h.sameTree he rfl
  split
  · exact hadd
  rename_i hready
  have hp' : p.addWorker fd ∈ (s.updPeer id fun p => p.addWorker fd).peers :=
    mem_map.mpr ⟨p, hp, by rw [if_pos hid]⟩
  have hk := keepsRoute_addWorker p fd
  have hact := hadd.activate hp' (f := fun p₁ => { p₁ with
    ready := true
    dead := false
    connectedAt := now
    retryCount := 0
    nextRetryUs := 0
    paths := if (portalPathRegister s.tree (peerPath p.name) (.lit "node")).2 = 0 then
      [peerPath p₁.name] else p₁.paths })
    (by rw [hk.name]; exact hfree p hp hid (Bool.eq_false_of_not_eq_true hready))
    (fun q _ _ => ⟨rfl, rfl, rfl, fun path hpath => by
      simp only at hpath
      split at hpath
      · exact .inr (mem_singleton.mp hpath)
      · exact .inl hpath, .inl rfl⟩)
  rw [hk.name, hk.id, hid] at hact
  exact hact

theorem RoutesInv.attachInbound (h : RoutesInv s) (existing : NodePeer) (fd : Int) :
    RoutesInv (attachInbound s existing fd) := by
  refine h.sameTree ?_ rfl
  rw [Portal.attachInbound]
  refine .trans (fun _ _ _ => KeepsRoute.trans) (.congr_left
    (eachPeer_updPeer .refl fun p _ _ => ?_) rfl rfl) (.of_eq .refl rfl rfl)
  refine .trans ?_ (keepsRoute_addWorker _ fd)
  exact ⟨rfl, rfl, rfl, fun _ h => h, fun h => ⟨h, rfl⟩⟩

theorem findPeerAny_eq_none {peers : List NodePeer}
    (h : findPeerAny peers name = none) : ∀ p ∈ peers, p.name ≠ name := by
  intro p hp
  simpa using find?_eq_none.mp h p hp

theorem RoutesInv.newInbound (h : RoutesInv s) (cfg : NodeConfig) (fd : Int)
    {advertised : List CStr} (now nowUs : Nat) (hfit : PeerNamesFit (name :: advertised))
    (hnew : findPeerAny s.peers name = none) (hfree : PathFree s name) :
    RoutesInv (newInbound cfg s fd name advertised now nowUs) := by
  obtain ⟨hn, hadv⟩ := forall_mem_cons.mp hfit
  have hname := findPeerAny_eq_none hnew
  rw [Portal.newInbound]
  split
  · have happ : RoutesInv ((s.append (inbound fd name now)).setTree
        (portalPathRegister s.tree (peerPath name) (.lit "node")).1) := by
      apply h.appendPeer (fun _ => rfl) hname hn
      · exact fun path hpath => mem_singleton.mp hpath
      · exact fun _ => rfl
      · exact h.tree.register _ _
      · exact fun p hp => lookup_registerOther h (hname p hp)
      · exact fun _ _ => lookup_registerNode h hfree
    exact (happ.registerAll cfg _ now hadv).of_eq rfl rfl rfl
  · exact h.hsAbort fd nowUs

theorem RoutesInv.finalizeHandshake (h : RoutesInv s) (cfg : NodeConfig) (fd : Int) (name : CStr)
    (advertised : List CStr) (now nowUs : Nat)
    (hsafe : RouteSafe s (.handshake fd name advertised now nowUs)) :
    RoutesInv (finalizeHandshake cfg s fd name advertised now nowUs) := by
  obtain ⟨hfit, hconn⟩ := hsafe
  rw [Portal.finalizeHandshake]
  split
  · exact h
  rename_i c hc
  obtain ⟨hout, hin⟩ := hconn c hc
  split
  · exact h
  split
  · rename_i hpeer
    split
    · exact h.attachInbound _ fd
    · obtain ⟨hnew, hfree⟩ := hin hpeer ‹_›
      exact h.newInbound cfg fd now nowUs hfit hnew hfree
  rename_i id hpeer
  have hatt := h.attachOutbound fd id now (hout id hpeer)
  split
  · exact h
  split
  · exact hatt.of_eq rfl rfl rfl
  · split
    · exact hatt.finishOutbound cfg fd id now (forall_mem_cons.mp hfit).2
    · exact hatt

theorem RoutesInv.connectToPeerAsync (h : RoutesInv s) (host : CStr)
    (started : List (Int × P)) (nowUs : Nat) (hfit : name.bytes.length ≤ 63) :
    RoutesInv (connectToPeerAsync s name host started nowUs) := by
  have hsettle {p : NodePeer} (hready : p.ready = false) :
      KeepsRoute p (if started = [] then p.backOff s.clock nowUs else p) := by
    split
    · exact keepsRoute_backOff hready _ _
    · exact .refl p
  rw [Portal.connectToPeerAsync]
  split
  · refine .of_eq (h.sameTree (eachPeer_updPeer .refl fun p _ _ => ?_) rfl) rfl rfl rfl
    refine .trans ?_ (hsettle rfl)
    exact ⟨rfl, rfl, rfl, fun _ h => h, fun h => absurd h Bool.false_ne_true⟩
  rename_i hnew
  have hname := findPeerAny_eq_none hnew
  split
  · have hmk (id : Nat) := @hsettle
      { NodePeer.fresh id (name.truncate 63) with cfgHost := host } rfl
    have hk := hmk s.nextId
    have happ : RoutesInv ((s.append fun id =>
        if started = [] then
          NodePeer.backOff { NodePeer.fresh id (name.truncate 63) with cfgHost := host }
            s.clock nowUs
        else { NodePeer.fresh id (name.truncate 63) with cfgHost := host }).setTree s.tree) := by
      apply h.appendPeer
      · intro id
        exact (hmk id).id
      · rw [hk.name]
        rwa [truncate_eq_self hfit]
      · rw [hk.name]
        rwa [truncate_eq_self hfit]
      · intro path hpath
        exact absurd (hk.paths hpath) not_mem_nil
      · intro hready
        exact absurd (hk.ready hready).1 Bool.false_ne_true
      · exact h.tree
      · exact fun _ _ => rfl
      · intro _ hready
        exact absurd (hk.ready hready).1 Bool.false_ne_true
    exact happ.of_eq rfl rfl (append_tree s _)
  · exact h

theorem RoutesInv.sweepInboundAt (h : RoutesInv s) (now i : Nat) :
    RoutesInv (sweepInboundAt now s i) := by
  rw [Portal.sweepInboundAt]
  split
  · exact h
  rename_i p hp
  split
  · exact h.remove hp rfl rfl rfl
  · exact h

theorem routesInv_removeIndirect (ks : List Nat) {st : NodeState P × Nat}
    (h : RoutesInv st.1) : RoutesInv (ks.foldl removeIndirectAt st).1 :=
  removeIndirect_induction ks h fun _ _ _ h hq _ => h.remove hq rfl rfl rfl

theorem NodePeer.needsReconnect_ready {p : NodePeer} {now nowUs : Nat}
    (h : p.needsReconnect now nowUs = true) (halive : p.ready = true → p.dead = false) :
    p.ready = false := by
  cases hready : p.ready with
  | false => rfl
  | true => simp [needsReconnect, hready, halive hready] at h

theorem RoutesInv.reconnectOne (h : RoutesInv s) (id now nowUs : Nat)
    (started : List (Int × P)) : RoutesInv (reconnectOne now nowUs started s id) := by
  rcases reconnectOne_cases s id now nowUs started with ⟨heq, -⟩ | ⟨i, p, hp, -, hneeds, heq⟩
  · rwa [heq]
  have hmem := mem_of_getElem? hp
  have hready := needsReconnect_ready hneeds (h.alive p hmem)
  rw [heq]
  apply RoutesInv.connectToPeerAsync
  · refine .sameTree ?_ (eachPeer_updPeer .refl fun p _ _ => ?_) rfl
    · apply routesInv_removeIndirect
      refine h.unregisters (.of_eq .refl rfl rfl) rfl fun q hq _ hqready hpath => ?_
      have hname := peerPath_injective (h.paths p hmem _ hpath)
      obtain rfl := inj_on_of_nodup_map h.names hq hmem hname
      exact absurd (hready.symm.trans hqready) Bool.false_ne_true
    · exact ⟨rfl, rfl, rfl, fun _ h => absurd h not_mem_nil, fun h => absurd h Bool.false_ne_true⟩
  · exact h.short p hmem

end Operations

/-! ### Runs -/

theorem tree_recordExchange (s : NodeState P) (fd : Int) (user : CStr) :
    (s.recordExchange fd user).tree = s.tree := by
  rw [NodeState.recordExchange]
  split <;> rfl

theorem tree_exchangeReply (s : NodeState P) (id : Nat) (fd : Int) (body : Bytes) :
    (exchangeReply s id fd body).tree = s.tree := by
  rw [exchangeReply]
  split
  · rfl
  · exact tree_recordExchange s fd _

theorem tree_identityProof (s : NodeState P) (fd : Int) (claimedKey : CharPtr) :
    (identityProof s fd claimedKey).tree = s.tree := by
  rw [identityProof]
  repeat' split
  all_goals first | rfl | exact tree_recordExchange s fd _

theorem tree_getWorker (s : NodeState P) (id : Nat) : (getWorker s id).tree = s.tree := by
  rw [getWorker]
  repeat' split
  all_goals rfl

/-- Whatever a safe step does, a ready peer is found under its path. -/
theorem routesInv_step (cfg : NodeConfig) {s : NodeState P} (h : RoutesInv s) (e : NodeEvent P)
    (hsafe : RouteSafe s e) : RoutesInv (nodeStep cfg s e) := by
  have hident (p : NodePeer) (user : CStr × PortalLabels) : KeepsRoute p (p.setIdentity user) :=
    ⟨rfl, rfl, rfl, fun _ h => h, fun h => ⟨h, rfl⟩⟩
  suffices happ : RoutesInv (nodeApply cfg s e) from happ.of_eq rfl rfl rfl
  cases e with
  | accept | advance | setAuth => exact h.of_eq rfl rfl rfl
  | connect => exact h.connectToPeerAsync _ _ _ (hsafe _ mem_cons_self)
  | handshake => exact h.finalizeHandshake cfg _ _ _ _ _ hsafe
  | exchangeReply id fd body =>
    exact h.sameTree (eachPeer_exchangeReply .refl hident id fd body)
      (tree_exchangeReply s id fd body)
  | exchangeEnd => exact h.finishOutbound cfg _ _ _ hsafe
  | identityProof fd key =>
    exact h.sameTree (eachPeer_identityProof .refl hident fd key) (tree_identityProof s fd key)
  | lost fd => exact (h.markPeerDeadByFd fd).of_eq rfl rfl rfl
  | writeError fd => exact h.markPeerDeadByFd fd
  | abort => exact h.hsAbort _ _
  | lend id =>
    exact h.sameTree (eachPeer_getWorker .refl
      (fun p i n => ⟨rfl, rfl, rfl, fun _ h => h, fun h => ⟨h, rfl⟩⟩)
      (fun p _ => keepsRoute_markDead p _) id) (tree_getWorker s id)
  | burn id i =>
    exact h.sameTree (eachPeer_burnWorker .refl
      (fun p => ⟨rfl, rfl, rfl, fun _ h => h, fun h => ⟨h, rfl⟩⟩) id) rfl
  | sweep => exact h.sweepInboundAt _ _
  | reconnect => exact h.reconnectOne _ _ _ _

/-- If a name has one record and no other module owns the path of a peer, every ready direct peer
can be reached through the router. -/
theorem ready_routable (cfg : NodeConfig) {tree : PortalPathTree} (htree : TreeOk tree)
    (auth : PortalAuthRegistry) (es : List (NodeEvent P))
    (h : Along (nodeStep cfg) RouteSafe (NodeState.initial tree auth) es) :
    Routable (run (nodeStep cfg) (NodeState.initial tree auth) es) :=
  RoutesInv.routable (Along.invariant (fun s e (hs : RoutesInv s) he => routesInv_step cfg hs e he)
    (routesInv_initial htree auth) h)

section BothDirections

def connecting : List (NodeEvent Unit) :=
  [.connect (.lit "edge") (.lit "10.0.0.2") [(7, ())] 0, .advance 7 .hsExchange]

def connected : List (NodeEvent Unit) := connecting ++ [.handshake 7 (.lit "edge") [] 1 0]

/-- The peer connects to this node in the meantime, and that connection is lost. -/
def bothDirections : List (NodeEvent Unit) :=
  connecting ++ [.accept 5 (), .handshake 5 (.lit "edge") [] 1 0,
    .handshake 7 (.lit "edge") [] 1 0, .lost 5]

def routesAfter (es : List (NodeEvent Unit)) : NodeState Unit :=
  run (nodeStep sharedConfig) (NodeState.initial portalPathInit sharedAuth) es

theorem ready_routable_connected :
    (routesAfter connected).peers.map (fun p => (p.name, p.isIndirect, p.ready, p.dead)) =
      [(.lit "edge", false, true, false)] ∧ Routable (routesAfter connected) := by
  have hname : (lit "edge").bytes.length ≤ 63 := by decide
  have hfit : PeerNamesFit [.lit "edge"] := fun n hn => mem_singleton.mp hn ▸ hname
  have hconn : (routesAfter connecting).conn 7 =
      some ⟨7, .hsExchange, some ⟨some 0, .lit "", []⟩, (), 1⟩ := by decide +kernel
  have htree : (routesAfter connecting).tree = portalPathInit := rfl
  refine ⟨by decide +kernel, ready_routable sharedConfig treeOk_init sharedAuth connected
    ⟨hfit, trivial, ⟨hfit, fun c hc => ⟨fun id _ p _ _ _ => .inl ?_, fun hnone => ?_⟩⟩, trivial⟩⟩
  · change portalPathLookup (routesAfter connecting).tree _ = none
    rw [htree, treeInv_init.lookup]
    rfl
  change (routesAfter connecting).conn 7 = some c at hc
  rw [hconn] at hc
  cases hc
  cases hnone

/-- The peer that was connected to is ready, and its path is gone. -/
theorem ready_routable_false :
    (routesAfter bothDirections).peers.map (fun p => (p.name, p.isIndirect, p.ready, p.dead)) =
      [(.lit "edge", false, true, false), (.lit "edge", false, false, true)] ∧
    ¬ Routable (routesAfter bothDirections) := by
  have htable : (routesAfter bothDirections).peers.map
      (fun p => (p.name, p.isIndirect, p.ready, p.dead)) =
      [(.lit "edge", false, true, false), (.lit "edge", false, false, true)] := by
    decide +kernel
  have hpath : portalPathLookup (routesAfter bothDirections).tree (peerPath (.lit "edge")) =
      none := by
    decide +kernel
  refine ⟨htable, fun h => ?_⟩
  obtain ⟨p, rest, hpeers, hp, -⟩ := map_eq_cons_iff.mp htable
  obtain ⟨hname, hflags⟩ := Prod.mk.inj hp
  obtain ⟨hdir, hflags⟩ := Prod.mk.inj hflags
  obtain ⟨hready, hdead⟩ := Prod.mk.inj hflags
  have hroute := (h p (by rw [hpeers]; exact mem_cons_self) hdir hready hdead).1
  rw [hname, hpath] at hroute
  cases hroute

end BothDirections

end Portal
