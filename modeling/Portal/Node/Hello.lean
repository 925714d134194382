import Portal.Lib.Buffers
import Portal.Node.Handshake

/-!
Both ends of the PORTAL02 handshake (`modules/mod_node/mod_node.c`): the string that
`drive_hs_send_build` makes of the configuration and the peer table, and `drive_hs_recv`, called
after every read, on the other side. The builder stops at the first peer that would bring the
string beyond 4094 bytes; the parser starts at the front of its buffer in every call.
-/

namespace Portal

open List Buffers Cursor

/-! ### The builder -/

inductive AdvertiseMode where
  | none
  | all
  | whitelist
deriving DecidableEq

/-- What a handshake says of this node: `g_node_name`, `g_key_hash` if `g_has_key`, and
`g_advertise_mode`. -/
structure HsConfig where
  nodeName : CStr
  keyHash : Option Bytes
  advertiseMode : AdvertiseMode
  keyHash_len : ∀ k ∈ keyHash, k.length = nodeKeyHashLen

/-- The key hash that is sent; a node without a key sends zeros. -/
def HsConfig.sentHash (cfg : HsConfig) : Bytes :=
  cfg.keyHash.getD (List.replicate nodeKeyHashLen 0)

def hsSendCap : Nat := 4096

/-- The loop over the peer table: `buf` is what is written up to `p`. -/
def advertiseLoop : Bytes → Nat → List NodePeer → Bytes × Nat
  | buf, count, [] => (buf, count)
  | buf, count, peer :: rest =>
    if !peer.ready || peer.isIndirect then advertiseLoop buf count rest
    else
      let pnlen := peer.name.bytes.length
      if buf.length + 2 + pnlen > hsSendCap - 2 then (buf, count)
      else advertiseLoop (buf ++ (beEncode 2 pnlen ++ peer.name.bytes)) (count + 1) rest

/-- `drive_hs_send_build`, up to the call of `fd_state_tx_append`: the two bytes at
`count_pos` are written last. -/
def hsSendBuild (cfg : HsConfig) (peers : List NodePeer) : Bytes :=
  let front := nodeHandshakeMagic ++ cfg.sentHash ++
    (beEncode 2 cfg.nodeName.bytes.length ++ cfg.nodeName.bytes)
  let countPos := front.length
  let filled := advertiseLoop (front ++ [0, 0]) 0
    (if cfg.advertiseMode = .none then [] else peers)
  writeAt filled.1 countPos (beEncode 2 filled.2)

/-! ### The list that fits -/

def readyDirect (peers : List NodePeer) : List CStr :=
  (peers.filter fun p => p.ready && !p.isIndirect).map (·.name)

/-- The whole handshake with these names is within 4094 bytes. -/
def HsFits (cfg : HsConfig) (names : List CStr) : Prop :=
  44 + cfg.nodeName.bytes.length + (encodePeers (names.map (·.bytes))).length ≤ 4094

/-- The longest start of the ready direct peers that fits; none when advertising is off. -/
def Advertised (cfg : HsConfig) (peers : List NodePeer) (names : List CStr) : Prop :=
  if cfg.advertiseMode = .none then names = []
  else names <+: readyDirect peers ∧ HsFits cfg names ∧
    ∀ l, l <+: readyDirect peers → HsFits cfg l → l.length ≤ names.length

/-- The names for which the loop writes an entry, with `used` bytes before it. -/
def advertisedNames : Nat → List CStr → List CStr
  | _, [] => []
  | used, n :: ns =>
    if used + 2 + n.bytes.length > hsSendCap - 2 then []
    else n :: advertisedNames (used + 2 + n.bytes.length) ns

theorem advertiseLoop_eq (buf : Bytes) (count : Nat) (peers : List NodePeer) :
    advertiseLoop buf count peers =
      (buf ++ encodePeers ((advertisedNames buf.length (readyDirect peers)).map (·.bytes)),
        count + (advertisedNames buf.length (readyDirect peers)).length) := by
  induction peers generalizing buf count with
  | nil => simp [advertiseLoop, readyDirect, advertisedNames, encodePeers]
  | cons peer rest ih =>
    rw [advertiseLoop]
    by_cases hskip : (!peer.ready || peer.isIndirect) = true
    · have hfilter : (peer.ready && !peer.isIndirect) = false := by
        rw [← Bool.not_eq_true', Bool.not_and, Bool.not_not]
        exact hskip
      rw [if_pos hskip, ih]
      simp only [readyDirect, filter_cons, hfilter, Bool.false_eq_true, if_false]
    · have hfilter : (peer.ready && !peer.isIndirect) = true := by
        rw [← Bool.not_eq_false', Bool.not_and, Bool.not_not]
        exact Bool.eq_false_of_not_eq_true hskip
      have hnames : readyDirect (peer :: rest) = peer.name :: readyDirect rest := by
        simp only [readyDirect, filter_cons, hfilter, if_true, map_cons]
      rw [if_neg hskip, hnames]
      simp only [advertisedNames]
      split
      · simp [encodePeers]
      · rw [ih]
        simp [length_beEncode, encodePeers_cons, ← add_assoc, Nat.add_right_comm count]

/-- The names written are those of the longest start of the list that stays within 4094. -/
theorem advertisedNames_spec (used : Nat) (names : List CStr) :
    advertisedNames used names <+: names ∧
    (used ≤ 4094 →
      used + (encodePeers ((advertisedNames used names).map (·.bytes))).length ≤ 4094) ∧
    ∀ l, l <+: names → used + (encodePeers (l.map (·.bytes))).length ≤ 4094 →
      l.length ≤ (advertisedNames used names).length := by
  induction names generalizing used with
  | nil =>
    refine ⟨ List.nil_prefix, fun h => by simpa [advertisedNames, encodePeers] using h, ?_⟩
    rintro l hl -
    rw [prefix_nil.mp hl]
    exact Nat.zero_le _
  | cons n ns ih =>
    obtain ⟨hpre, hle, hmax⟩ := ih (used + 2 + n.bytes.length)
    rw [advertisedNames, hsSendCap]
    split
    · rename_i hfull
      refine ⟨ List.nil_prefix, fun h => by simpa [encodePeers] using h, ?_⟩
      rintro (_ | ⟨m, l⟩) hl hfits
      · exact le_refl 0
      · obtain ⟨rfl, -⟩ := cons_prefix_cons.mp hl
        rw [map_cons, length_encodePeers_cons] at hfits
        omega
    refine ⟨cons_prefix_cons.mpr ⟨rfl, hpre⟩, fun _ => ?_, ?_⟩
    · rw [map_cons, length_encodePeers_cons]
      have := hle (by omega)
      omega
    rintro (_ | ⟨m, l⟩) hl hfits
    · exact Nat.zero_le _
    · obtain ⟨rfl, htail⟩ := cons_prefix_cons.mp hl
      rw [map_cons, length_encodePeers_cons] at hfits
      exact Nat.succ_le_succ (hmax l htail (by omega))

def HsConfig.advertised (cfg : HsConfig) (peers : List NodePeer) : List CStr :=
  if cfg.advertiseMode = .none then []
  else advertisedNames (44 + cfg.nodeName.bytes.length) (readyDirect peers)

variable {cfg : HsConfig}

theorem advertised_spec (hname : cfg.nodeName.bytes.length ≤ 63)
    (peers : List NodePeer) : Advertised cfg peers (cfg.advertised peers) := by
  obtain ⟨hpre, hle, hmax⟩ :=
    advertisedNames_spec (44 + cfg.nodeName.bytes.length) (readyDirect peers)
  rw [Advertised, HsConfig.advertised]
  split
  · rfl
  · exact ⟨hpre, hle (by omega), hmax⟩

theorem hsFits_advertised (hname : cfg.nodeName.bytes.length ≤ 63)
    (peers : List NodePeer) : HsFits cfg (cfg.advertised peers) := by
  have h := advertised_spec hname peers
  rw [Advertised] at h
  split at h
  · rw [h, HsFits]
    simp only [map_nil, encodePeers, flatMap_nil, length_nil]
    omega
  · exact h.2.1

theorem mem_advertised {peers : List NodePeer} {n : CStr}
    (h : n ∈ cfg.advertised peers) : ∃ p ∈ peers, p.name = n := by
  rw [HsConfig.advertised] at h
  split at h
  · cases h
  have hmem := (advertisedNames_spec _ _).1.mem h
  rw [readyDirect, mem_map] at hmem
  obtain ⟨p, hp, rfl⟩ := hmem
  exact ⟨p, (mem_filter.mp hp).1, rfl⟩

theorem two_mul_length_le (l : List Bytes) : 2 * l.length ≤ (encodePeers l).length := by
  induction l with
  | nil => exact le_refl 0
  | cons p ps ih =>
    rw [length_encodePeers_cons, length_cons]
    omega

theorem HsConfig.length_sentHash (cfg : HsConfig) : cfg.sentHash.length = nodeKeyHashLen := by
  rw [HsConfig.sentHash]
  cases hkey : cfg.keyHash with
  | none => exact length_replicate
  | some k => exact cfg.keyHash_len k hkey

theorem length_advertised_lt (hname : cfg.nodeName.bytes.length ≤ 63)
    (peers : List NodePeer) : ((cfg.advertised peers).map (·.bytes)).length < 256 ^ 2 := by
  have hfits := hsFits_advertised hname peers
  have hcount := two_mul_length_le ((cfg.advertised peers).map (·.bytes))
  rw [HsFits] at hfits
  omega

theorem name_advertised_le {peers : List NodePeer}
    (hpeers : ∀ p ∈ peers, p.name.bytes.length ≤ 63) :
    ∀ n ∈ cfg.advertised peers, n.bytes.length ≤ 63 := by
  intro n hn
  obtain ⟨p, hp, rfl⟩ := mem_advertised hn
  exact hpeers p hp

theorem entry_lt {names : List CStr} (h : ∀ n ∈ names, n.bytes.length ≤ 63) :
    ∀ b ∈ names.map (·.bytes), b.length < 256 ^ 2 := by
  intro b hb
  obtain ⟨n, hn, rfl⟩ := mem_map.mp hb
  have := h n hn
  omega

def HsConfig.hello (cfg : HsConfig) (peers : List NodePeer)
    (hname : cfg.nodeName.bytes.length ≤ 63) (hpeers : ∀ p ∈ peers, p.name.bytes.length ≤ 63) :
    Hello where
  keyHash := cfg.sentHash
  name := cfg.nodeName.bytes
  peers := (cfg.advertised peers).map (·.bytes)
  keyHash_len := cfg.length_sentHash
  name_lt := Nat.lt_succ_of_le hname
  count_lt := length_advertised_lt hname peers
  peer_lt := entry_lt (name_advertised_le hpeers)

/-- The string is the handshake of the node's name and the names that fit. -/
theorem hsSendBuild_eq (cfg : HsConfig) (peers : List NodePeer)
    (hname : cfg.nodeName.bytes.length ≤ 63) (hpeers : ∀ p ∈ peers, p.name.bytes.length ≤ 63) :
    hsSendBuild cfg peers = (cfg.hello peers hname hpeers).encode := by
  have hlen : (nodeHandshakeMagic ++ cfg.sentHash ++ (beEncode 2 cfg.nodeName.bytes.length ++
      cfg.nodeName.bytes) ++ [0, 0]).length = 44 + cfg.nodeName.bytes.length := by
    have hmagic : nodeHandshakeMagic.length = 8 := by decide
    simp only [length_append, cfg.length_sentHash, hmagic, length_beEncode, nodeKeyHashLen,
      length_cons, length_nil]
    omega
  have hnames : advertisedNames (44 + cfg.nodeName.bytes.length)
      (readyDirect (if cfg.advertiseMode = .none then [] else peers)) = cfg.advertised peers := by
    rw [HsConfig.advertised]
    split
    · rfl
    · rfl
  simp only [hsSendBuild, advertiseLoop_eq, hlen, hnames, zero_add]
  rw [writeAt, append_assoc _ [0, 0], take_left' rfl, length_beEncode, ← drop_drop, drop_left' rfl]
  simp [HsConfig.hello, Hello.encode, Hello.header]

section Parser

variable {hello : Hello} {names : List CStr} {key : Option Bytes} {hs : HsRecv}
  {buf more : Bytes}

/-- What the parser has found out about a buffer that starts with `hello`: besides `Known`,
its name, and the first of its entries. -/
structure Heard (hello : Hello) (names : List CStr) (hs : HsRecv) (buf : Bytes) : Prop where
  known : Known hello hs buf
  name : 2 ≤ hs.recvPhase → hs.peerName = .ofBytes hello.name
  peers : hs.advertised <+: names

theorem heard_initial (hello : Hello) (names : List CStr) (buf : Bytes) :
    Heard hello names .initial buf :=
  ⟨known_initial hello buf, fun h => absurd h (by decide), nil_prefix⟩

theorem Heard.append (h : Heard hello names hs buf) (more : Bytes) :
    Heard hello names hs (buf ++ more) :=
  ⟨h.known.append more, h.name, h.peers⟩

/-- A phase that comes to its end, or needs more than there is, keeps what was found out. -/
def KeepsHeard (hello : Hello) (names : List CStr) (r : Except Parsed HsRecv) : Prop :=
  ∀ hs, r = .ok hs ∨ r = .error (.incomplete hs) →
    (2 ≤ hs.recvPhase → hs.peerName = .ofBytes hello.name) ∧ hs.advertised <+: names

theorem keeps_error {e : Parsed} (he : ∀ hs, e ≠ .incomplete hs) :
    KeepsHeard hello names (.error e) := by
  rintro hs (h | h)
  · cases h
  · exact absurd (Except.error.inj h) (he hs)

theorem keeps_wait (h : Heard hello names hs buf) :
    KeepsHeard hello names (.error (.incomplete hs)) := by
  rintro hs' (h' | h')
  · cases h'
  · cases h'
    exact ⟨h.name, h.peers⟩

theorem keeps_ok (hname : 2 ≤ hs.recvPhase → hs.peerName = .ofBytes hello.name)
    (hpeers : hs.advertised <+: names) : KeepsHeard hello names (.ok hs) := by
  rintro hs' (h' | h')
  · cases h'
    exact ⟨hname, hpeers⟩
  · cases h'

theorem keeps_recvHeader (h : Heard hello names hs buf) :
    KeepsHeard hello names (recvHeader key hs buf) := by
  rw [recvHeader]
  split
  · split
    · exact keeps_wait h
    · split
      · exact keeps_error (by rintro hs ⟨⟩)
      · split
        · exact keeps_error (by rintro hs ⟨⟩)
        · simp only
          split
          · exact keeps_error (by rintro hs ⟨⟩)
          · exact keeps_ok (fun h2 => absurd h2 (by decide : ¬ 2 ≤ 1)) h.peers
  · exact keeps_ok h.name h.peers

theorem keeps_recvName (hpre : buf <+: hello.encode ++ more) (hp : 1 ≤ hs.recvPhase)
    (h : Heard hello names hs buf) : KeepsHeard hello names (recvName hs buf) := by
  have hlen := h.known.nameLen hp
  rw [recvName]
  split
  · split
    · exact keeps_wait h
    · rename_i hroom
      rw [Hello.encode, append_assoc, append_assoc] at hpre
      obtain ⟨tail, rfl, htail⟩ := prefix_split hpre (by rw [hello.length_header]; omega)
      rw [length_append, hello.length_header] at hroom
      obtain ⟨tail', rfl, -⟩ := prefix_split htail (by omega)
      refine keeps_ok (fun _ => ?_) h.peers
      rw [drop_left' hello.length_header, hlen, take_left' rfl]
  · exact keeps_ok h.name h.peers

theorem keeps_recvCount (h : Heard hello names hs buf) (hp : 2 ≤ hs.recvPhase) :
    KeepsHeard hello names (recvCount hs buf) := by
  rw [recvCount]
  split
  · split
    · exact keeps_wait h
    · exact keeps_ok (fun _ => h.name hp) h.peers
  · exact keeps_ok h.name h.peers

theorem keeps_recvPhases (hkey : ∀ k ∈ key, hello.keyHash = k)
    (hpre : buf <+: hello.encode ++ more) (h : Heard hello names hs buf) :
    KeepsHeard hello names (recvHeader key hs buf >>= fun hs =>
      recvName hs buf >>= fun hs => recvCount hs buf) := by
  have hheader : KeepsHeard hello names (recvHeader key hs buf) := keeps_recvHeader h
  rcases recvHeader_spec hkey hpre h.known with ⟨hs₁, h₁, hk₁, hp₁⟩ | ⟨hs₁, h₁, -, -⟩
  · obtain ⟨hn₁, ha₁⟩ := hheader hs₁ (.inl h₁)
    have hname := keeps_recvName hpre hp₁ ⟨hk₁, hn₁, ha₁⟩
    rw [h₁]
    rcases recvName_spec hk₁ hp₁ with ⟨hs₂, h₂, hk₂, hp₂⟩ | ⟨hs₂, h₂, -, -⟩
    · obtain ⟨hn₂, ha₂⟩ := hname hs₂ (.inl h₂)
      have hcount := keeps_recvCount ⟨hk₂, hn₂, ha₂⟩ hp₂
      simp only [bind, Except.bind, h₂]
      exact hcount
    · rw [h₂] at hname
      simp only [bind, Except.bind, h₂]
      exact hname
  · rw [h₁] at hheader ⊢
    exact hheader

/-- The loop over the entries adds those that are there and were not added yet. -/
theorem recvPeers_names (front names : List CStr) (hshort : ∀ n ∈ names, n.bytes.length ≤ 63)
    (rest : Bytes) (hpre : rest <+: encodePeers (names.map (·.bytes)) ++ more)
    (advertised : List CStr) (hadv : advertised <+: front ++ names)
    (hfront : front.length ≤ advertised.length) :
    (recvPeers names.length front.length rest advertised).2 <+: front ++ names ∧
    ((recvPeers names.length front.length rest advertised).1.isSome →
      (recvPeers names.length front.length rest advertised).2 = front ++ names) := by
  induction names generalizing front rest advertised with
  | nil =>
    rw [append_nil] at hadv ⊢
    exact ⟨hadv, fun _ => hadv.eq_of_length_le hfront⟩
  | cons n ns ih =>
    obtain ⟨hn, hns⟩ := forall_mem_cons.mp hshort
    have hmod : n.bytes.length < portalMaxModuleName := Nat.lt_succ_of_le hn
    rw [map_cons, encodePeers_cons, append_assoc, append_assoc] at hpre
    rw [length_cons, recvPeers_entry (by omega) hpre, if_pos hmod, CStr.ofBytes_bytes]
    by_cases hcut : rest.length < 2 + n.bytes.length
    · rw [if_pos hcut]
      exact ⟨hadv, by rintro ⟨⟩⟩
    · rw [if_neg hcut]
      have hnext := ih (front ++ [n]) hns _ (entry_rest hpre (by omega))
        (if front.length < advertised.length then advertised else advertised ++ [n])
      rw [append_assoc, length_append] at hnext
      apply hnext
      · split
        · exact hadv
        · -- all that was added stands before this entry
          have heq : advertised = front := by
            have hpf := prefix_of_prefix_length_le hadv (prefix_append front _)
              (by omega)
            exact hpf.eq_of_length_le hfront
          rw [heq]
          exact (prefix_append_right_inj front).mpr (prefix_append [n] ns)
      · split
        · exact ‹_›
        · rw [length_append]
          exact Nat.add_le_add_right hfront 1

/-- A call that does not come to the end keeps what the parser knows, and one that does
knows all. -/
theorem heard_driveHsRecv (hkey : ∀ k ∈ key, hello.keyHash = k)
    (hpre : buf <+: hello.encode ++ more) (hnames : hello.peers = names.map (·.bytes))
    (hshort : ∀ n ∈ names, n.bytes.length ≤ 63) (h : Heard hello names hs buf) :
    if hello.encode.length ≤ buf.length then
      ∃ hs', driveHsRecv key hs buf = .complete hs' (buf.drop hello.encode.length) ∧
        hs'.peerName = .ofBytes hello.name ∧ hs'.advertised = names
    else ∃ hs', driveHsRecv key hs buf = .incomplete hs' ∧ Heard hello names hs' buf := by
  obtain ⟨hs', hknown, heq⟩ := driveHsRecv_spec hkey hpre h.known
  have hkeeps := keeps_recvPhases hkey hpre h
  rcases recvPhases_spec hkey hpre h.known with ⟨hs₁, hr, hk₁, hp₁⟩ | ⟨hs₁, hr, -, hcut⟩
  · obtain ⟨hname₁, hadv₁⟩ := hkeeps hs₁ (.inl hr)
    obtain ⟨hcount, hle⟩ := hk₁.peerCount hp₁
    have hrest := entries_prefix hpre hle
    rw [hnames] at hrest
    obtain ⟨hpeers, hall⟩ := recvPeers_names [] names hshort _ hrest hs₁.advertised hadv₁
      (Nat.zero_le _)
    rw [hnames, length_map] at hcount
    rw [length_nil, nil_append] at hpeers hall
    rcases hrec : recvPeers names.length 0 (buf.drop (44 + hello.name.length)) hs₁.advertised with
      ⟨_ | rest, advertised⟩ <;>
      rw [hrec] at hpeers hall <;>
      simp only [driveHsRecv, hr, hcount, hk₁.nameLen (by omega), hrec] at heq ⊢
    · split at heq
      · cases heq
      · rename_i hcut
        cases heq
        rw [if_neg hcut]
        exact ⟨_, rfl, hknown, fun _ => hname₁ (by omega), hpeers⟩
    · split at heq
      · rename_i hwhole
        cases heq
        rw [if_pos hwhole]
        exact ⟨_, rfl, hname₁ (by omega), hall rfl⟩
      · cases heq
  · obtain ⟨hname, hpeers⟩ := hkeeps hs₁ (.inr hr)
    simp only [driveHsRecv, hr] at heq ⊢
    rw [if_neg (by omega)] at heq ⊢
    cases heq
    exact ⟨_, rfl, hknown, hname, hpeers⟩

/-- Another key hash is found out with the 42nd byte. -/
theorem driveHsRecv_authFailure {k : Bytes} (hk : hello.keyHash ≠ k) (hphase : hs.recvPhase = 0)
    (hpre : buf <+: hello.encode ++ more) :
    driveHsRecv (some k) hs buf = if 42 ≤ buf.length then .authFailure else .incomplete hs := by
  by_cases hlen : 42 ≤ buf.length
  · rw [Hello.encode, append_assoc] at hpre
    obtain ⟨tail, rfl, -⟩ := prefix_split hpre (by rw [hello.length_header]; omega)
    have hheader : recvHeader (some k) hs (hello.header ++ tail) = .error .authFailure := by
      rw [recvHeader, if_pos hphase, if_neg (by omega),
        if_neg (not_not_intro (hello.take_magic tail)), hello.take_keyHash,
        if_pos (by simpa using hk)]
    rw [driveHsRecv, hheader, if_pos hlen]
    rfl
  · have hheader : recvHeader (some k) hs buf = .error (.incomplete hs) := by
      rw [recvHeader, if_pos hphase, if_pos (by omega)]
    rw [driveHsRecv, hheader, if_neg hlen]
    rfl

end Parser

/-! ### Any cut into reads -/

/-- The calls of `drive_hs_recv`, one after each read, until one does not ask for more. -/
def feedHs (key : Option Bytes) : HsRecv → Bytes → List Bytes → Parsed
  | hs, _, [] => .incomplete hs
  | hs, buf, chunk :: reads =>
    match driveHsRecv key hs (buf ++ chunk) with
    | .incomplete hs' => feedHs key hs' (buf ++ chunk) reads
    | .complete hs' rest => .complete hs' rest
    | .protocolError => .protocolError
    | .authFailure => .authFailure

theorem feedHs_accepts {hello : Hello} {names : List CStr} {key : Option Bytes}
    (hkey : ∀ k ∈ key, hello.keyHash = k) (hnames : hello.peers = names.map (·.bytes))
    (hshort : ∀ n ∈ names, n.bytes.length ≤ 63) (reads : List Bytes) {hs : HsRecv} {buf : Bytes}
    (hpre : buf ++ reads.flatten <+: hello.encode) (h : Heard hello names hs buf)
    (hbuf : buf.length < hello.encode.length) :
    if buf ++ reads.flatten = hello.encode then
      ∃ hs', feedHs key hs buf reads = .complete hs' [] ∧
        hs'.peerName = .ofBytes hello.name ∧ hs'.advertised = names
    else ∃ hs', feedHs key hs buf reads = .incomplete hs' := by
  induction reads generalizing hs buf with
  | nil =>
    rw [flatten_nil, append_nil] at hpre ⊢
    rw [if_neg (fun heq => absurd (congrArg List.length heq) (by omega))]
    exact ⟨hs, rfl⟩
  | cons chunk reads ih =>
    rw [flatten_cons, ← append_assoc] at hpre ⊢
    have hcall := (prefix_append _ reads.flatten).trans hpre
    have hstep := heard_driveHsRecv hkey (hcall.trans (prefix_append _ [])) hnames hshort
      (h.append chunk)
    rw [feedHs]
    by_cases hwhole : hello.encode.length ≤ (buf ++ chunk).length
    · -- all has arrived, and the reads behind it bring nothing
      have hsent : buf ++ chunk = hello.encode := hcall.eq_of_length_le hwhole
      rw [if_pos hwhole] at hstep
      obtain ⟨hs', hdone, hname, hadv⟩ := hstep
      have hall : buf ++ chunk ++ reads.flatten = hello.encode :=
        hpre.eq_of_length_le (by rw [length_append]; omega)
      rw [if_pos hall, hdone]
      refine ⟨hs', ?_, hname, hadv⟩
      rw [hsent, drop_length]
    · rw [if_neg hwhole] at hstep
      obtain ⟨hs', hwait, hheard⟩ := hstep
      rw [hwait]
      exact ih hpre hheard (Nat.lt_of_not_le hwhole)

theorem feedHs_refuses {hello : Hello} {k : Bytes} (hk : hello.keyHash ≠ k) (reads : List Bytes)
    {hs : HsRecv} {buf : Bytes} (hpre : buf ++ reads.flatten <+: hello.encode)
    (hphase : hs.recvPhase = 0) (hbuf : buf.length < 42) :
    feedHs (some k) hs buf reads =
      if 42 ≤ (buf ++ reads.flatten).length then .authFailure else .incomplete hs := by
  induction reads generalizing buf with
  | nil =>
    rw [flatten_nil, append_nil, if_neg (by omega)]
    rfl
  | cons chunk reads ih =>
    rw [flatten_cons, ← append_assoc] at hpre ⊢
    have hcall := (prefix_append _ reads.flatten).trans hpre
    rw [feedHs, driveHsRecv_authFailure hk hphase (hcall.trans (prefix_append _ []))]
    by_cases hlen : 42 ≤ (buf ++ chunk).length
    · rw [if_pos hlen, if_pos (by rw [length_append]; omega)]
    · rw [if_neg hlen]
      exact ih hpre (Nat.lt_of_not_le hlen)

/-- Whatever the sender's table and however its string is cut: a receiver without a key or with the
same one asks for more up to the last byte and then has the name and the advertised peers, and one
with another key refuses with the 42nd byte. -/
theorem handshake_roundTrip (cfg : HsConfig) (hname : cfg.nodeName.bytes.length ≤ 63)
    (peers : List NodePeer) (hpeers : ∀ p ∈ peers, p.name.bytes.length ≤ 63)
    (key : Option Bytes) (reads : List Bytes)
    (hreads : reads.flatten <+: hsSendBuild cfg peers) :
    ((key = none ∨ key = some cfg.sentHash) →
      if reads.flatten = hsSendBuild cfg peers then
        ∃ hs, feedHs key .initial [] reads = .complete hs [] ∧
          hs.peerName = cfg.nodeName ∧ Advertised cfg peers hs.advertised
      else ∃ hs, feedHs key .initial [] reads = .incomplete hs) ∧
    (∀ k, key = some k → k ≠ cfg.sentHash →
      feedHs key .initial [] reads =
        if 42 ≤ reads.flatten.length then .authFailure else .incomplete .initial) := by
  rw [hsSendBuild_eq cfg peers hname hpeers] at hreads ⊢
  have hpre : [] ++ reads.flatten <+: (cfg.hello peers hname hpeers).encode := hreads
  constructor
  · intro hsame
    have hkey : ∀ k ∈ key, (cfg.hello peers hname hpeers).keyHash = k := by
      rcases hsame with rfl | rfl
      · rintro k ⟨⟩
      · rintro k ⟨⟩
        rfl
    have hstart : ([] : Bytes).length < (cfg.hello peers hname hpeers).encode.length := by
      rw [Hello.length_encode, length_nil]
      omega
    have hfeed := feedHs_accepts hkey rfl (name_advertised_le hpeers) reads hpre
      (heard_initial _ _ _) hstart
    split
    · rename_i hall
      rw [nil_append, if_pos hall] at hfeed
      obtain ⟨hs, hdone, hpeer, hadv⟩ := hfeed
      refine ⟨hs, hdone, ?_, ?_⟩
      · rw [hpeer]
        exact CStr.ofBytes_bytes cfg.nodeName
      · rw [hadv]
        exact advertised_spec hname peers
    · rename_i hcut
      rwa [nil_append, if_neg hcut] at hfeed
  · rintro k rfl hk
    exact feedHs_refuses (Ne.symm hk) reads hpre rfl (Nat.succ_pos 41)

theorem no_key_len : ∀ k ∈ (none : Option Bytes), k.length = nodeKeyHashLen := by
  rintro k ⟨⟩

def helloSender : HsConfig := ⟨.lit "alpha", none, .all, no_key_len⟩

def helloTable : List NodePeer :=
  [{ NodePeer.fresh 0 (.lit "beta") with ready := true }, .fresh 1 (.lit "gamma")]

theorem handshake_roundTrip_cut :
    (∃ hs, feedHs none .initial [] [(hsSendBuild helloSender helloTable).take 20,
        (hsSendBuild helloSender helloTable).drop 20] = .complete hs [] ∧
      hs.peerName = .lit "alpha" ∧ Advertised helloSender helloTable hs.advertised) ∧
    feedHs (some (List.replicate 32 1)) .initial []
      [(hsSendBuild helloSender helloTable).take 42] = .authFailure := by
  have hname : helloSender.nodeName.bytes.length ≤ 63 := by decide
  have hpeers : ∀ p ∈ helloTable, p.name.bytes.length ≤ 63 := by decide
  constructor
  · have hall : [(hsSendBuild helloSender helloTable).take 20,
        (hsSendBuild helloSender helloTable).drop 20].flatten =
        hsSendBuild helloSender helloTable := by
      simp
    have h := (handshake_roundTrip helloSender hname helloTable hpeers none _
      (by rw [hall])).1 (.inl rfl)
    rwa [if_pos hall] at h
  have hcut : [(hsSendBuild helloSender helloTable).take 42].flatten =
      (hsSendBuild helloSender helloTable).take 42 := by
    simp
  have h := (handshake_roundTrip helloSender hname helloTable hpeers
    (some (List.replicate 32 1)) [(hsSendBuild helloSender helloTable).take 42]
    (by rw [hcut]; exact take_prefix 42 _)).2 _ rfl (by decide)
  rwa [if_pos (by rw [hcut]; decide)] at h

end Portal
