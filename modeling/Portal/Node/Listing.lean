import Mathlib.Algebra.Order.BigOperators.Group.List
import Portal.Node.Peers

/-!
The listings of peers: `/node/resources/peers` and `/node/resources/peer` of
`modules/mod_node/mod_node.c`. A caller is shown the peers whose configured labels
`portal_labels_allow` lets through. The texts are printed into arrays on the stack, and a text that
is longer is read from behind its array: such an answer is none.
-/

namespace Portal

open List Option
open CStr (lit)

/-- A time in seconds, well beyond the range of `time_t`. -/
abbrev Seconds := Fin 10000000000000000000

/-- What is read of a `node_peer_t`. `busy` has an entry for each worker; `tls` says that the
control connection or the first worker has a session. -/
structure PeerRow where
  name : CStr
  host : CStr
  port : Int
  isInbound : Bool
  isIndirect : Bool
  hubIdx : Nat
  ready : Bool
  dead : Bool
  tls : Bool
  busy : List Bool
  msgsSent : UInt64
  msgsRecv : UInt64
  bytesSent : UInt64
  bytesRecv : UInt64
  errors : UInt64
  connectedAt : Seconds
  shortName : name.bytes.length < portalMaxModuleName
  shortHost : host.bytes.length ≤ 255
  smallPort : port.natAbs < 10000000000
  fewWorkers : busy.length ≤ nodeMaxThreads
deriving DecidableEq

def PeerRow.busyCount (p : PeerRow) : Nat := p.busy.count true

def PeerRow.status (p : PeerRow) : CStr :=
  if p.ready then if p.dead then .lit "dead" else .lit "ready" else .lit "connecting"

def PeerRow.shownHost (p : PeerRow) : CStr := if p.isIndirect then .lit "(via hub)" else p.host

def PeerRow.uptime (p : PeerRow) (now : Seconds) : Int :=
  if p.connectedAt.val = 0 then 0 else (now.val : Int) - p.connectedAt.val

def uint64 (n : UInt64) : Bytes := decimalDigits n.toNat

section Handlers

variable (peerLabels : List (CStr × PortalLabels)) (caller : Option PortalCtx)

/-- `peer_get_labels`: the labels the configuration gives a name. -/
def peerGetLabels (name : CStr) : PortalLabels :=
  ((peerLabels.find? fun e => e.1 = name).map Prod.snd).getD .empty

def peerSeen (name : CStr) : Bool :=
  (portalLabelsAllow caller (some (peerGetLabels peerLabels name))).1

/-! ### `/node/resources/peers` -/

def PeerRow.line (now : Seconds) (p : PeerRow) : Bytes :=
  (lit "  ").bytes ++ padTo 16 p.name.bytes ++ (lit " ").bytes ++
    padTo 18 p.shownHost.bytes ++ (lit " [").bytes ++ p.status.bytes ++
    (lit "] ").bytes ++
    (if p.isIndirect then lit "indirect"
      else if p.isInbound then .lit "inbound" else .lit "outbound").bytes ++
    (lit " workers:").bytes ++ decimalDigits p.busyCount ++ (lit "/").bytes ++
    decimalDigits p.busy.length ++ (if p.tls then lit " [TLS]" else .lit "").bytes ++
    (lit " msgs:").bytes ++ uint64 p.msgsSent ++ (lit "/").bytes ++ uint64 p.msgsRecv ++
    (lit " bytes:").bytes ++ uint64 p.bytesSent ++ (lit "/").bytes ++
    uint64 p.bytesRecv ++ (lit " up:").bytes ++ decimalBytes (p.uptime now) ++
    (lit "s\n").bytes

def visibleRows (table : List PeerRow) : List PeerRow :=
  table.filter fun p => peerSeen peerLabels caller p.name

def peersText (now : Seconds) (table : List PeerRow) : Bytes :=
  (lit "Connected peers:\n").bytes ++
    ((visibleRows peerLabels caller table).map (PeerRow.line now)).flatten ++
    if table = [] then (lit "  (none)\n").bytes else []

/-- The body has one byte more than the text, and both fit in 8192. -/
def handlePeers (now : Seconds) (table : List PeerRow) : Option Reply :=
  let text := peersText peerLabels caller now table
  if text.length < 8192 then some ⟨.ok, 0, text ++ [0]⟩ else none

/-! ### `/node/resources/peer` -/

/-- `snprintf` into an array, and as many bytes of the array as it returns. -/
def printedBody (size : Nat) (text : Bytes) : Option Bytes :=
  if text.length < size then some text
  else if text.length = size then some (text.take (size - 1) ++ [0])
  else none

def hubName (table : List PeerRow) (p : PeerRow) : CStr :=
  if p.isIndirect then ((table[p.hubIdx]?).map PeerRow.name).getD (.lit "") else .lit ""

/-- The answer about a peer: fixed texts, each with the value behind it. -/
def PeerRow.details (now : Seconds) (hub : CStr) (p : PeerRow) : List (CStr × Bytes) :=
  [(.lit "Peer: ", p.name.bytes),
    (.lit "\nHost: ", p.shownHost.bytes),
    (.lit ":", decimalBytes p.port),
    (.lit "\nStatus: ", p.status.bytes),
    (.lit "\nRoute: ", (if p.isIndirect then lit "indirect via "
      else if p.isInbound then .lit "inbound" else .lit "outbound").bytes ++ hub.bytes),
    (.lit "\nTLS: ", (if p.tls then lit "yes" else .lit "no").bytes),
    (.lit "\nWorkers: ", decimalDigits p.busy.length),
    (.lit " total, ", decimalDigits p.busyCount),
    (.lit " busy\nConnected: ", decimalBytes ((p.uptime now).tdiv 3600)),
    (.lit "h ", decimalBytes (((p.uptime now).tmod 3600).tdiv 60)),
    (.lit "m ", decimalBytes ((p.uptime now).tmod 60)),
    (.lit "s\nMessages sent: ", uint64 p.msgsSent),
    (.lit "\nMessages recv: ", uint64 p.msgsRecv),
    (.lit "\nBytes sent: ", uint64 p.bytesSent),
    (.lit "\nBytes recv: ", uint64 p.bytesRecv),
    (.lit "\nErrors: ", uint64 p.errors),
    (.lit "\n", [])]

def detailsText (details : List (CStr × Bytes)) : Bytes :=
  (details.map fun d => d.1.bytes ++ d.2).flatten

def notFoundText (pname : CStr) : Bytes :=
  (lit "Peer '").bytes ++ pname.bytes ++ (lit "' not found\n").bytes

/-- The same answer for a peer that is hidden and one that is not there. -/
def peerNotFound (pname : CStr) : Option Reply :=
  (printedBody 128 (notFoundText pname)).map fun body => ⟨.notFound, -1, body⟩

/-- The name is that of the request, from a header or the path, if it has one. -/
def handlePeer (now : Seconds) (table : List PeerRow) : Option CStr → Option Reply
  | none => some (.fail .badRequest)
  | some pname =>
    match table.find? fun p => p.name = pname with
    | none => peerNotFound pname
    | some p =>
      if peerSeen peerLabels caller p.name then
        (printedBody 4096 (detailsText (p.details now (hubName table p)))).map fun body =>
          ⟨.ok, 0, body⟩
      else peerNotFound pname

def hubView (table : List PeerRow) (p : PeerRow) : Option Nat :=
  if p.isIndirect && (table[p.hubIdx]?).any fun h => peerSeen peerLabels caller h.name then
    some (visibleRows peerLabels caller (table.take p.hubIdx)).length
  else none

/-- A row, with its reference to a row the caller sees in place of an index. -/
def PeerRow.view (table : List PeerRow) (p : PeerRow) : PeerRow × Option Nat :=
  ({ p with hubIdx := 0 }, hubView peerLabels caller table p)

/-- The tables have the same visible rows, in the same order. -/
def AgreeOnVisible (table table' : List PeerRow) : Prop :=
  (visibleRows peerLabels caller table).map (PeerRow.view peerLabels caller table) =
    (visibleRows peerLabels caller table').map (PeerRow.view peerLabels caller table')

instance (table table' : List PeerRow) :
    Decidable (AgreeOnVisible peerLabels caller table table') :=
  inferInstanceAs (Decidable (_ = _))

/-- The two handlers return, and return the same. -/
def SameReply (r r' : Option Reply) : Prop := ∃ reply, r = some reply ∧ r' = some reply

/-- The name of the hub of a peer that is asked for is the same, if the caller does not see the
hub. -/
def HiddenHubsMatch (table table' : List PeerRow) (pname : CStr) : Prop :=
  peerSeen peerLabels caller pname = true →
    ∀ p p', table.find? (fun p => p.name = pname) = some p →
    table'.find? (fun p => p.name = pname) = some p' → p.isIndirect = true →
    hubView peerLabels caller table p = none → hubName table p = hubName table' p'

end Handlers

/-! ### The list -/

variable {p : PeerRow}

section Proofs

variable {peerLabels : List (CStr × PortalLabels)} {caller : Option PortalCtx}
  {table table' : List PeerRow} {now : Seconds}

open PeerRow

theorem AgreeOnVisible.map_eq {α : Type} (h : AgreeOnVisible peerLabels caller table table')
    (f : PeerRow → α) (hf : ∀ p i, f { p with hubIdx := i } = f p) :
    (visibleRows peerLabels caller table).map f = (visibleRows peerLabels caller table').map f := by
  have hview (t : List PeerRow) : f = (fun v => f v.1) ∘ view peerLabels caller t :=
    funext fun p => (hf p 0).symm
  calc (visibleRows peerLabels caller table).map f
      = ((visibleRows peerLabels caller table).map (view peerLabels caller table)).map
          fun v => f v.1 := by rw [List.map_map, ← hview]
    _ = ((visibleRows peerLabels caller table').map (view peerLabels caller table')).map
          fun v => f v.1 := by rw [h]
    _ = (visibleRows peerLabels caller table').map f := by rw [List.map_map, ← hview]

/-- The list tells whether the table is empty, and nothing else of what is hidden. -/
theorem AgreeOnVisible.peers_iff (h : AgreeOnVisible peerLabels caller table table')
    (now : Seconds) :
    SameReply (handlePeers peerLabels caller now table) (handlePeers peerLabels caller now table') ↔
      (peersText peerLabels caller now table).length < 8192 ∧ (table = [] ↔ table' = []) := by
  have hlines := h.map_eq (line now) fun _ _ => rfl
  constructor
  · rintro ⟨reply, hr, hr'⟩
    simp only [handlePeers, Option.ite_none_right_eq_some] at hr hr'
    refine ⟨hr.1, ?_⟩
    have hbody := congrArg Reply.body (some.inj (hr.2.trans hr'.2.symm))
    have htext := append_cancel_right hbody
    rw [peersText, peersText, hlines] at htext
    have hnone := append_cancel_left htext
    have hne : (lit "  (none)\n").bytes ≠ [] := by decide
    by_cases ht : table = []
    · by_cases ht' : table' = []
      · exact iff_of_true ht ht'
      · rw [if_pos ht, if_neg ht'] at hnone
        exact absurd hnone hne
    · by_cases ht' : table' = []
      · rw [if_neg ht, if_pos ht'] at hnone
        exact absurd hnone.symm hne
      · exact iff_of_false ht ht'
  rintro ⟨hfits, hempty⟩
  have htext : peersText peerLabels caller now table' =
      peersText peerLabels caller now table := by
    simp only [peersText, hlines, hempty]
  refine ⟨⟨.ok, 0, peersText peerLabels caller now table ++ [0]⟩, if_pos hfits, ?_⟩
  rw [handlePeers, htext]
  exact if_pos hfits

/-! ### One peer -/

variable {pname : CStr}

theorem find?_visibleRows (hseen : peerSeen peerLabels caller pname = true) (table : List PeerRow) :
    (visibleRows peerLabels caller table).find? (fun p => p.name = pname) =
      table.find? fun p => p.name = pname := by
  rw [visibleRows, find?_filter]
  congr 1
  funext p
  by_cases hp : p.name = pname
  · simp [hp, hseen]
  · simp [hp]

/-- The peer that is asked for is the same in both tables, up to its hub. -/
theorem AgreeOnVisible.find (h : AgreeOnVisible peerLabels caller table table')
    (hseen : peerSeen peerLabels caller pname = true) :
    (table.find? fun p => p.name = pname).map (PeerRow.view peerLabels caller table) =
      (table'.find? fun p => p.name = pname).map (PeerRow.view peerLabels caller table') := by
  rw [← find?_visibleRows hseen table, ← find?_visibleRows hseen table']
  have hview (t : List PeerRow) (l : List PeerRow) :
      (l.find? fun p => p.name = pname).map (view peerLabels caller t) =
        (l.map (view peerLabels caller t)).find? fun v => v.1.name = pname := by
    rw [find?_map]
    rfl
  rw [hview, hview, h]

theorem getElem?_visibleRows {i : Nat} {h : PeerRow} (hi : table[i]? = some h)
    (hseen : peerSeen peerLabels caller h.name = true) :
    (visibleRows peerLabels caller table)[(visibleRows peerLabels caller (table.take i)).length]? =
      some h := by
  obtain ⟨hlt, rfl⟩ := List.getElem?_eq_some_iff.mp hi
  have hsplit : table = table.take i ++ table[i] :: table.drop (i + 1) := by
    rw [← drop_eq_getElem_cons hlt, take_append_drop]
  have hvisible : visibleRows peerLabels caller table =
      visibleRows peerLabels caller (table.take i) ++
        table[i] :: visibleRows peerLabels caller (table.drop (i + 1)) := by
    conv_lhs => rw [hsplit]
    rw [visibleRows, filter_append, filter_cons, if_pos hseen]
    rfl
  rw [hvisible, getElem?_append_right le_rfl, Nat.sub_self]
  rfl

theorem hubName_of_hubView {k : Nat} (hview : hubView peerLabels caller table p = some k) :
    ((visibleRows peerLabels caller table).map PeerRow.name)[k]? = some (hubName table p) := by
  rw [hubView, Option.ite_none_right_eq_some, Bool.and_eq_true, Option.any_eq_true] at hview
  obtain ⟨⟨hindirect, h, hhub, hseen⟩, hk⟩ := hview
  cases hk
  rw [getElem?_map, getElem?_visibleRows hhub hseen, hubName, if_pos hindirect, hhub]
  rfl

theorem AgreeOnVisible.hubName_eq (h : AgreeOnVisible peerLabels caller table table') {p' : PeerRow}
    (hp : p.view peerLabels caller table = p'.view peerLabels caller table')
    (hseen : hubView peerLabels caller table p ≠ none ∨ p.isIndirect = false) :
    hubName table p = hubName table' p' := by
  have hfields : ({ p with hubIdx := 0 } : PeerRow) = { p' with hubIdx := 0 } :=
    congrArg Prod.fst hp
  have hhubs : hubView peerLabels caller table p = hubView peerLabels caller table' p' :=
    congrArg Prod.snd hp
  rcases hseen with hsome | hdirect
  · obtain ⟨k, hk⟩ := ne_none_iff_exists'.mp hsome
    have hname := hubName_of_hubView hk
    rw [h.map_eq name fun _ _ => rfl, hubName_of_hubView (hhubs ▸ hk)] at hname
    exact (some.inj hname).symm
  · have hdirect' : p'.isIndirect = false :=
      (congrArg isIndirect hfields).symm.trans hdirect
    rw [hubName, hubName, hdirect, hdirect']
    rfl

theorem detailsText_inj {p' : PeerRow}
    (hp : ({ p with hubIdx := 0 } : PeerRow) = { p' with hubIdx := 0 }) {hub hub' : CStr} :
    detailsText (p.details now hub) = detailsText (p'.details now hub') ↔ hub = hub' := by
  have hfields : p'.details now hub' = p.details now hub' := by
    change details now hub' { p' with hubIdx := 0 } =
      details now hub' { p with hubIdx := 0 }
    rw [hp]
  rw [hfields]
  constructor
  · intro heq
    simp only [detailsText, details, map_cons, flatten_cons, append_assoc,
      append_cancel_left_eq, append_cancel_right_eq] at heq
    exact CStr.ext_bytes heq
  · rintro rfl
    rfl

theorem length_detailsText (details : List (CStr × Bytes)) :
    (detailsText details).length =
      ((details.map Prod.fst).map fun t => t.bytes.length).sum +
        ((details.map Prod.snd).map List.length).sum := by
  induction details with
  | nil => rfl
  | cons d details ih =>
    simp only [detailsText, map_cons, flatten_cons, length_append, sum_cons] at ih ⊢
    omega

theorem length_uint64 (n : UInt64) : (uint64 n).length ≤ 20 := by
  rw [uint64, decimalDigits, length_map]
  have hlt := n.toNat_lt
  exact (Nat.length_toDigits_le_iff (by decide) (by decide)).mpr (hlt.trans (by decide))

theorem length_seconds {t : Int} (h : t.natAbs < 10000000000000000000) :
    (decimalBytes t).length ≤ 20 := by
  have hlen : (decimalDigits t.natAbs).length ≤ 19 := by
    rw [decimalDigits, length_map]
    exact (Nat.length_toDigits_le_iff (by decide) (by decide)).mpr h
  rw [decimalBytes]
  split
  · rw [length_cons]
    omega
  · omega

theorem length_detailsTexts (p : PeerRow) (hub : CStr) :
    (((p.details now hub).map Prod.fst).map fun t => t.bytes.length).sum = 145 := by
  simp only [details, map_cons, map_nil]
  decide

theorem PeerRow.uptime_lt (p : PeerRow) (now : Seconds) :
    (p.uptime now).natAbs < 10000000000000000000 := by
  rw [uptime]
  split <;> omega

theorem length_part {t : Int} {k : Nat} (h : t.natAbs < 10000000000000000000) :
    (decimalBytes (t.tdiv k)).length ≤ 20 ∧ (decimalBytes (t.tmod k)).length ≤ 20 := by
  constructor
  · refine length_seconds ?_
    rw [Int.natAbs_tdiv]
    exact (Nat.div_le_self ..).trans_lt h
  · refine length_seconds ?_
    rw [Int.natAbs_tmod]
    exact (Nat.mod_le ..).trans_lt h

theorem length_workers {n : Nat} (hn : n ≤ nodeMaxThreads) : (decimalDigits n).length ≤ 20 := by
  rw [decimalDigits, length_map]
  exact (Nat.length_toDigits_le_iff (by decide) (by decide)).mpr (hn.trans_lt (by decide))

theorem values_fit (p : PeerRow) {hub : CStr} (hhub : hub.bytes.length < portalMaxModuleName) :
    List.Forall₂ (fun value room => value.length ≤ room) ((p.details now hub).map Prod.snd)
      [64, 256, 20, 10, 77, 3, 20, 20, 20, 20, 20, 20, 20, 20, 20, 20, 0] := by
  have hhost : p.shownHost.bytes.length ≤ 256 := by
    rw [shownHost]
    split
    · decide
    · exact p.shortHost.trans (Nat.le_succ 255)
  have hstatus : p.status.bytes.length ≤ 10 := by
    rw [status]
    split_ifs <;> decide
  have hroute : (if p.isIndirect then lit "indirect via "
      else if p.isInbound then .lit "inbound" else .lit "outbound").bytes.length ≤ 13 := by
    split_ifs <;> decide
  have htls : (if p.tls then lit "yes" else .lit "no").bytes.length ≤ 3 := by
    split_ifs <;> decide
  have hminutes : ((p.uptime now).tmod 3600).natAbs < 10000000000000000000 := by
    rw [Int.natAbs_tmod]
    exact (Nat.mod_le ..).trans_lt (p.uptime_lt now)
  simp only [details, map_cons, map_nil, forall₂_cons, length_append, length_nil]
  exact ⟨p.shortName.le, hhost, length_seconds (p.smallPort.trans (by decide)), hstatus,
    Nat.add_le_add hroute hhub.le, htls, length_workers p.fewWorkers,
    length_workers (List.count_le_length.trans p.fewWorkers),
    (length_part (k := 3600) (p.uptime_lt now)).1, (length_part (k := 60) hminutes).1,
    (length_part (k := 60) (p.uptime_lt now)).2, length_uint64 _, length_uint64 _, length_uint64 _,
    length_uint64 _, length_uint64 _, le_rfl, .nil⟩

theorem details_fit (p : PeerRow) {hub : CStr} (hhub : hub.bytes.length < portalMaxModuleName) :
    (detailsText (p.details now hub)).length < 4096 := by
  have hvalues := List.Forall₂.sum_le_sum
    (forall₂_map_left_iff.mpr (values_fit p hhub) : List.Forall₂ (· ≤ ·)
      (((p.details now hub).map Prod.snd).map List.length) _)
  rw [length_detailsText, length_detailsTexts]
  exact (Nat.add_le_add_left hvalues 145).trans_lt (by decide)

theorem length_hubName (table : List PeerRow) (p : PeerRow) :
    (hubName table p).bytes.length < portalMaxModuleName := by
  rw [hubName]
  split
  · cases table[p.hubIdx]? with
    | none => decide
    | some h => exact h.shortName
  · decide

theorem sameReply_self {r : Option Reply} : SameReply r r ↔ r.isSome = true := by
  rw [isSome_iff_exists]
  exact ⟨fun ⟨reply, h, _⟩ => ⟨reply, h⟩, fun ⟨reply, h⟩ => ⟨reply, h, h⟩⟩

/-- A name that is not found is printed back, if it is not too long. -/
theorem isSome_peerNotFound (pname : CStr) :
    (peerNotFound pname).isSome = true ↔ pname.bytes.length ≤ 110 := by
  have hlen : (notFoundText pname).length = pname.bytes.length + 18 := by
    simp only [notFoundText, length_append]
    have h1 : (lit "Peer '").bytes.length = 6 := by decide
    have h2 : (lit "' not found\n").bytes.length = 12 := by decide
    omega
  rw [peerNotFound, Option.isSome_map, printedBody, hlen]
  split_ifs <;> simp <;> omega

theorem handlePeer_seen (hfind : table.find? (fun p => p.name = pname) = some p)
    (hseen : peerSeen peerLabels caller pname = true) :
    handlePeer peerLabels caller now table (some pname) =
      some ⟨.ok, 0, detailsText (p.details now (hubName table p))⟩ := by
  have hname : p.name = pname := by simpa using find?_some hfind
  rw [handlePeer, hfind]
  simp only [hname, hseen, if_true]
  rw [printedBody, if_pos (details_fit p (length_hubName table p))]
  rfl

theorem handlePeer_hidden (h : peerSeen peerLabels caller pname = false ∨
    table.find? (fun p => p.name = pname) = none) :
    handlePeer peerLabels caller now table (some pname) = peerNotFound pname := by
  rw [handlePeer]
  cases hfind : table.find? fun p => p.name = pname with
  | none => rfl
  | some p =>
    have hname : p.name = pname := by simpa using find?_some hfind
    have hseen : peerSeen peerLabels caller pname = false :=
      h.resolve_right (by rw [hfind]; exact some_ne_none p)
    simp [hname, hseen]

theorem mem_visibleRows : p ∈ visibleRows peerLabels caller table ↔
    p ∈ table ∧ peerSeen peerLabels caller p.name = true :=
  mem_filter

theorem AgreeOnVisible.sameDetails_iff (h : AgreeOnVisible peerLabels caller table table')
    (hseen : peerSeen peerLabels caller pname = true) {p' : PeerRow}
    (hfind : table.find? (fun p => p.name = pname) = some p)
    (hfind' : table'.find? (fun p => p.name = pname) = some p')
    (hview : p.view peerLabels caller table = p'.view peerLabels caller table') :
    SameReply (handlePeer peerLabels caller now table (some pname))
        (handlePeer peerLabels caller now table' (some pname)) ↔
      HiddenHubsMatch peerLabels caller table table' pname := by
  rw [handlePeer_seen hfind hseen, handlePeer_seen hfind' hseen]
  constructor
  · rintro ⟨reply, hr, hr'⟩ - q q' hq hq' - -
    have hbody := congrArg Reply.body (some.inj (hr.trans hr'.symm))
    cases hfind.symm.trans hq
    cases hfind'.symm.trans hq'
    exact (detailsText_inj (congrArg Prod.fst hview)).mp hbody
  intro hmatch
  have hhub : hubName table p = hubName table' p' := by
    by_cases hcase : hubView peerLabels caller table p ≠ none ∨ p.isIndirect = false
    · exact h.hubName_eq hview hcase
    · rw [not_or, not_not, Bool.not_eq_false] at hcase
      exact hmatch hseen p p' hfind hfind' hcase.2 hcase.1
  have htext : detailsText (p.details now (hubName table p)) =
      detailsText (p'.details now (hubName table' p')) :=
    (detailsText_inj (congrArg Prod.fst hview)).mpr hhub
  exact ⟨_, rfl, by rw [htext]⟩

/-- The answer about a peer tells the name of a hidden hub, and nothing else of what is hidden. -/
theorem AgreeOnVisible.peer_iff (h : AgreeOnVisible peerLabels caller table table')
    (now : Seconds) (pname : CStr) :
    SameReply (handlePeer peerLabels caller now table (some pname))
        (handlePeer peerLabels caller now table' (some pname)) ↔
      (pname.bytes.length ≤ 110 ∨ ∃ p ∈ visibleRows peerLabels caller table, p.name = pname) ∧
        HiddenHubsMatch peerLabels caller table table' pname := by
  cases hseen : peerSeen peerLabels caller pname with
  | false =>
    have hnone : ¬ ∃ p ∈ visibleRows peerLabels caller table, p.name = pname := by
      rintro ⟨p, hp, rfl⟩
      exact Bool.false_ne_true (hseen.symm.trans (mem_visibleRows.mp hp).2)
    have hhubs : HiddenHubsMatch peerLabels caller table table' pname :=
      fun h => absurd (hseen.symm.trans h) Bool.false_ne_true
    rw [handlePeer_hidden (.inl hseen), handlePeer_hidden (.inl hseen), sameReply_self,
      isSome_peerNotFound, or_iff_left hnone, and_iff_left hhubs]
  | true =>
    have hviews := h.find hseen
    cases hfind : table.find? fun p => p.name = pname with
    | none =>
      rw [hfind, map_none] at hviews
      have hfind' := Option.map_eq_none_iff.mp hviews.symm
      have hnone : ¬ ∃ p ∈ visibleRows peerLabels caller table, p.name = pname := by
        rintro ⟨p, hp, hname⟩
        have hne := find?_eq_none.mp hfind p (mem_visibleRows.mp hp).1
        exact hne (decide_eq_true hname)
      have hhubs : HiddenHubsMatch peerLabels caller table table' pname := by
        intro _ p p' hp
        rw [hfind] at hp
        exact absurd hp (some_ne_none p).symm
      rw [handlePeer_hidden (.inr hfind), handlePeer_hidden (.inr hfind'), sameReply_self,
        isSome_peerNotFound, or_iff_left hnone, and_iff_left hhubs]
    | some p =>
      rw [hfind, map_some] at hviews
      obtain ⟨p', hfind', hview⟩ := map_eq_some_iff.mp hviews.symm
      have hname : p.name = pname := by simpa using find?_some hfind
      have hvisible : ∃ p ∈ visibleRows peerLabels caller table, p.name = pname :=
        ⟨p, mem_visibleRows.mpr ⟨mem_of_find?_eq_some hfind, hname ▸ hseen⟩, hname⟩
      rw [h.sameDetails_iff hseen hfind hfind' hview.symm, and_iff_right (.inr hvisible)]

/-- For two tables that agree on the peers a caller sees: when the two listings are the same. -/
theorem peer_listing_hides (h : AgreeOnVisible peerLabels caller table table') (now : Seconds) :
    (SameReply (handlePeers peerLabels caller now table)
        (handlePeers peerLabels caller now table') ↔
      (peersText peerLabels caller now table).length < 8192 ∧ (table = [] ↔ table' = [])) ∧
    ∀ pname,
      (SameReply (handlePeer peerLabels caller now table (some pname))
          (handlePeer peerLabels caller now table' (some pname)) ↔
        (pname.bytes.length ≤ 110 ∨ ∃ p ∈ visibleRows peerLabels caller table, p.name = pname) ∧
          HiddenHubsMatch peerLabels caller table table' pname) :=
  ⟨h.peers_iff now, h.peer_iff now⟩

end Proofs

/-! ### Two tables -/

def idleRow (name : CStr) (short : name.bytes.length < portalMaxModuleName) (via : Option Nat) :
    PeerRow where
  name := name
  host := .lit "10.0.0.1"
  port := 9700
  isInbound := false
  isIndirect := via.isSome
  hubIdx := via.getD 0
  ready := true
  dead := false
  tls := false
  busy := []
  msgsSent := 0
  msgsRecv := 0
  bytesSent := 0
  bytesRecv := 0
  errors := 0
  connectedAt := 0
  shortName := short
  shortHost := by decide
  smallPort := by decide
  fewWorkers := by decide

/-- Two hubs of the operators, and a peer for everyone behind one of them. -/
def eastRow : PeerRow := idleRow (.lit "east") (by decide) none

def westRow : PeerRow := idleRow (.lit "west") (by decide) none

def shopRow : PeerRow := idleRow (.lit "shop") (by decide) (some 0)

def hubLabels : List (CStr × PortalLabels) :=
  [(.lit "east", (portalLabelsAdd .empty (.lit "ops")).1),
    (.lit "west", (portalLabelsAdd .empty (.lit "ops")).1)]

def annCaller : Option PortalCtx :=
  some { PortalCtx.zero with auth := ⟨some (lit "ann").bytes, none, .empty⟩ }

/-- A hidden peer beside the one the caller sees changes no answer. -/
theorem peer_listing_hides_shop :
    SameReply (handlePeers hubLabels annCaller 0 [eastRow, shopRow])
        (handlePeers hubLabels annCaller 0 [eastRow, shopRow, westRow]) ∧
      SameReply (handlePeer hubLabels annCaller 0 [eastRow, shopRow] (some (.lit "west")))
        (handlePeer hubLabels annCaller 0 [eastRow, shopRow, westRow] (some (.lit "west"))) := by
  have hsame : AgreeOnVisible hubLabels annCaller [eastRow, shopRow]
      [eastRow, shopRow, westRow] := by decide +kernel
  have hhidden : peerSeen hubLabels annCaller (.lit "west") ≠ true := by decide +kernel
  obtain ⟨hpeers, hpeer⟩ := peer_listing_hides hsame 0
  exact ⟨hpeers.mpr ⟨by decide +kernel, by decide⟩,
    (hpeer (.lit "west")).mpr ⟨.inl (by decide), fun h => absurd h hhidden⟩⟩

/-- An empty table is told from one of hidden peers, and the answer about a peer names the hidden
hub it is behind. -/
theorem peer_listing_hides_false :
    AgreeOnVisible hubLabels annCaller [] [eastRow] ∧
      ¬ SameReply (handlePeers hubLabels annCaller 0 [])
        (handlePeers hubLabels annCaller 0 [eastRow]) ∧
      AgreeOnVisible hubLabels annCaller [eastRow, shopRow] [westRow, shopRow] ∧
      ¬ SameReply (handlePeer hubLabels annCaller 0 [eastRow, shopRow] (some (.lit "shop")))
        (handlePeer hubLabels annCaller 0 [westRow, shopRow] (some (.lit "shop"))) := by
  have hnone : AgreeOnVisible hubLabels annCaller [] [eastRow] := by decide +kernel
  have hvia : AgreeOnVisible hubLabels annCaller [eastRow, shopRow] [westRow, shopRow] := by
    decide +kernel
  refine ⟨hnone, fun h => ?_, hvia, fun h => ?_⟩
  · have hempty := ((hnone.peers_iff 0).mp h).2
    exact absurd (hempty.mp rfl) (by decide)
  have hhubs := ((hvia.peer_iff 0 _).mp h).2
  have hname := hhubs (by decide +kernel) shopRow shopRow (by decide +kernel) (by decide +kernel)
    rfl (by decide +kernel)
  exact absurd hname (by decide +kernel)

end Portal
