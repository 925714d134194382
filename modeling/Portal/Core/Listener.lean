import Portal.Core.Auth
import Portal.Core.Router
import Portal.Core.Wire
import Portal.Lib.Framing

/-!
The core TCP and UDP listeners: `on_tcp_client` and `on_udp_data` of `src/main.c`.

Neither looks at the credentials in a frame: the decoded message goes to `api_send`
as it is.
-/

namespace Portal

open List Framing

/-- Frames of the TCP listener: four bytes of length, 1 to 65536 bytes of payload. -/
def tcpFormat : Format UInt8 := lengthFormat 65536

def readOnce (k : Nat) : List Bytes → Option (Bytes × List Bytes)
  | [] => none
  | c :: cs => if c.length ≤ k then some (c, cs) else some (c.take k, c.drop k :: cs)

/-- `none` when it closes the connection (or waits for ever for the rest of a frame), else what it
hands to `api_send` and what is left on the socket. -/
def onTcpClient (evError : Bool) (sock : List Bytes) : Option (Option PortalMsg × List Bytes) :=
  if evError then none
  else
    match readOnce 4 sock with
    | none => none
    | some (hdr, sock) =>
      if hdr.length ≠ 4 then none
      else
        match tcpFormat.payload hdr with
        | none => none
        | some msgLen =>
          let d := drain msgLen sock
          if d.1.length < msgLen then none else some (decodeFrame (hdr ++ d.1), d.2)

/-- The calls the event loop makes on one connection, given their `EV_ERROR` flags: for
each frame, what was handed to `api_send`. -/
def tcpRun : List Bool → List Bytes → List (Option PortalMsg)
  | [], _ => []
  | e :: es, sock =>
    match onTcpClient e sock with
    | none => []
    | some (msg, sock) => msg :: tcpRun es sock

def onUdpData (datagram : Bytes) : Option PortalMsg :=
  let buf := datagram.take 65536
  if buf.length ≤ 4 then none else decodeFrame buf

/-! ### What the TCP listener reads -/

theorem tcpFormat_header : tcpFormat.header = 4 := rfl

theorem readOnce_flatten {k : Nat} {sock sock' : List Bytes} {b : Bytes}
    (h : readOnce k sock = some (b, sock')) : sock.flatten = b ++ sock'.flatten := by
  cases sock with
  | nil => cases h
  | cons c cs =>
    rw [readOnce] at h
    split at h
    · cases h
      rfl
    · cases h
      simp [← append_assoc]

theorem onTcpClient_some {e : Bool} {sock sock' : List Bytes} {msg : Option PortalMsg}
    (h : onTcpClient e sock = some (msg, sock')) :
    ∃ f, tcpFormat.IsFrame f ∧ sock.flatten = f ++ sock'.flatten ∧ msg = decodeFrame f := by
  cases e with
  | true => cases h
  | false =>
    simp only [onTcpClient, Bool.false_eq_true, if_false] at h
    split at h
    · cases h
    rename_i hdr sock₁ hread
    split at h
    · cases h
    rename_i hne
    have hlen : hdr.length = 4 := by simpa using hne
    split at h
    · cases h
    rename_i n hpay
    obtain ⟨h₁, h₂⟩ := drain_spec n sock₁
    split at h
    · cases h
    rename_i hfull
    have hbody : (drain n sock₁).1.length = n := by
      rw [h₁, length_take] at hfull ⊢
      omega
    cases h
    refine ⟨hdr ++ (drain n sock₁).1, ⟨?_, ?_⟩, ?_, rfl⟩
    · rw [length_append, hlen, tcpFormat_header]
      omega
    · rw [tcpFormat_header, ← hlen, take_left, hpay, length_append, hbody, Nat.add_sub_cancel_left]
    · rw [readOnce_flatten hread, append_assoc, h₁, h₂, take_append_drop]

def oneChunk (s : Bytes) : List Bytes := if s = [] then [] else [s]

theorem drain_oneChunk {s : Bytes} (hs : s ≠ []) (rest : Bytes) :
    drain s.length (oneChunk (s ++ rest)) = (s, oneChunk rest) := by
  have hne : s ++ rest ≠ [] := by simp [hs]
  have hpos : s.length ≠ 0 := by simpa using hs
  rw [oneChunk, if_neg hne, drain, if_neg hpos]
  cases rest with
  | nil => simp [drain, oneChunk]
  | cons b bs => simp [oneChunk]

theorem readOnce_oneChunk {s : Bytes} (hs : s ≠ []) (rest : Bytes) :
    readOnce s.length (oneChunk (s ++ rest)) = some (s, oneChunk rest) := by
  have hne : s ++ rest ≠ [] := by simp [hs]
  rw [oneChunk, if_neg hne, readOnce]
  cases rest with
  | nil | cons b bs => simp [oneChunk]

theorem onTcpClient_oneChunk {f : Bytes} (hf : tcpFormat.IsFrame f) (rest : Bytes) :
    onTcpClient false (oneChunk (f ++ rest)) = some (decodeFrame f, oneChunk rest) := by
  obtain ⟨hlen, hpay⟩ := hf
  rw [tcpFormat_header] at hlen hpay
  have hsplit : f = f.take 4 ++ f.drop 4 := (take_append_drop 4 f).symm
  have hhdr : (f.take 4).length = 4 := by
    rw [length_take]
    omega
  -- An acceptable length is at least 1, so there is a payload.
  have hbody : (f.drop 4).length = f.length - 4 := by rw [length_drop]
  have hpos : f.length - 4 ≠ 0 := by
    intro h0
    rw [h0] at hpay
    simp only [tcpFormat, lengthFormat] at hpay
    split at hpay
    · cases hpay
    · rename_i hrange
      have := Option.some.inj hpay
      omega
  have hhdr_ne : f.take 4 ≠ [] := by
    intro h
    rw [h] at hhdr
    cases hhdr
  have hbody_ne : f.drop 4 ≠ [] := by
    intro h
    rw [h] at hbody
    exact hpos hbody.symm
  have hread := readOnce_oneChunk hhdr_ne (f.drop 4 ++ rest)
  have hdrain := drain_oneChunk hbody_ne rest
  rw [hhdr, ← append_assoc, ← hsplit] at hread
  rw [hbody] at hdrain
  simp [onTcpClient, hread, hhdr, hpay, hdrain, hbody]

/-- The messages of a run are the decoded frames the stream starts with, in order. -/
theorem tcpRun_frames {es : List Bool} {sock : List Bytes} {k : Nat} {m : Option PortalMsg}
    (h : (tcpRun es sock)[k]? = some m) :
    ∃ fs f, fs.length = k ∧ (fs ++ [f]).flatten <+: sock.flatten ∧
      (∀ g ∈ fs ++ [f], tcpFormat.IsFrame g) ∧ m = decodeFrame f := by
  induction es generalizing sock k with
  | nil => simp [tcpRun] at h
  | cons e es ih =>
    rw [tcpRun] at h
    split at h
    · simp at h
    rename_i msg sock' hcall
    obtain ⟨f, hf, hflat, rfl⟩ := onTcpClient_some hcall
    cases k with
    | zero =>
      obtain rfl : decodeFrame f = m := by simpa using h
      exact ⟨[], f, rfl, by simp [hflat], by simpa using hf, rfl⟩
    | succ k =>
      obtain ⟨fs, g, rfl, hpre, hframes, rfl⟩ := ih (by simpa using h)
      refine ⟨f :: fs, g, rfl, ?_, ?_, rfl⟩
      · rw [hflat, cons_append, flatten_cons]
        exact (prefix_append_right_inj f).mpr hpre
      intro x hx
      rw [cons_append] at hx
      rcases mem_cons.mp hx with rfl | hx
      · exact hf
      · exact hframes x hx

/-- When everything arrives at once, every complete frame is read. -/
theorem tcpRun_oneChunk (fs : List Bytes) (f rest : Bytes)
    (hframes : ∀ g ∈ fs ++ [f], tcpFormat.IsFrame g) :
    (tcpRun (List.replicate (fs.length + 1) false)
      (oneChunk ((fs ++ [f]).flatten ++ rest)))[fs.length]? = some (decodeFrame f) := by
  induction fs with
  | nil =>
    have hf := hframes f (by simp)
    simp [tcpRun, onTcpClient_oneChunk hf]
  | cons g fs ih =>
    have hg := hframes g (by simp)
    have hrest := ih fun x hx => hframes x (by simp_all)
    rw [length_cons, replicate_succ, tcpRun, cons_append, flatten_cons,
      append_assoc, onTcpClient_oneChunk hg]
    simpa using hrest

/-! ### Identities without credentials -/

/-- A context that names a user or carries labels also carries a credential that the
registry resolves to that user. -/
def Backed (auth : PortalAuthRegistry) (now : UInt64) (msg : PortalMsg) : Prop :=
  ∀ c, msg.ctx = some c → (c.auth.user ≠ none ∨ c.auth.labels.labels ≠ []) →
    ∃ u, c.userName = some u.username ∧ Resolves auth now c.auth.token u

abbrev AuthHistory := Nat → PortalAuthRegistry × UInt64

/-- On the stream `s`, however it is cut into non-empty reads, everything dispatched is
backed. -/
def TcpBacked (auths : AuthHistory) (s : Bytes) : Prop :=
  ∀ es sock, sock.flatten = s → [] ∉ sock →
    ∀ k msg, (tcpRun es sock)[k]? = some (some msg) → Backed (auths k).1 (auths k).2 msg

/-- Every complete frame that the stream `s` brings and that decodes carries no
identity, or a credential for it. -/
def TcpFramesBacked (auths : AuthHistory) (s : Bytes) : Prop :=
  ∀ fs f, (fs ++ [f]).flatten <+: s → (∀ g ∈ fs ++ [f], tcpFormat.IsFrame g) →
    ∀ msg, decodeFrame f = some msg → Backed (auths fs.length).1 (auths fs.length).2 msg

/-- The same for datagrams: a datagram longer than four bytes is one frame. -/
def UdpFramesBacked (auths : AuthHistory) (datagrams : List Bytes) : Prop :=
  ∀ k d, datagrams[k]? = some d → 4 < d.length →
    ∀ msg, decodeFrame (d.take 65536) = some msg → Backed (auths k).1 (auths k).2 msg

theorem onUdpData_eq (d : Bytes) :
    onUdpData d = if 4 < d.length then decodeFrame (d.take 65536) else none := by
  rw [onUdpData]
  by_cases h : 4 < d.length
  · rw [if_pos h, if_neg (by simp; omega)]
  · rw [if_neg h, if_pos (by simp; omega)]

/-- The listeners add nothing to what the client wrote: dispatched identities are
backed exactly when the frames that arrive back them. -/
theorem listeners_backed_iff (auths : AuthHistory) :
    (∀ s, TcpBacked auths s ↔ TcpFramesBacked auths s) ∧
    (∀ datagrams : List Bytes,
      (∀ k d, datagrams[k]? = some d → ∀ msg, onUdpData d = some msg →
        Backed (auths k).1 (auths k).2 msg) ↔ UdpFramesBacked auths datagrams) := by
  refine ⟨fun s => ⟨?_, ?_⟩, fun datagrams => ⟨?_, ?_⟩⟩
  · rintro h fs f ⟨rest, hpre⟩ hframes msg hmsg
    refine h (List.replicate (fs.length + 1) false) (oneChunk s) ?_ ?_ fs.length msg ?_
    · by_cases hs : s = [] <;> simp [oneChunk, hs]
    · by_cases hs : s = [] <;> simp [oneChunk, hs, eq_comm]
    · rw [← hpre, tcpRun_oneChunk fs f rest hframes, hmsg]
  · rintro h es sock rfl _ k msg hk
    obtain ⟨fs, f, rfl, hpre, hframes, hmsg⟩ := tcpRun_frames hk
    exact h fs f hpre hframes msg hmsg.symm
  · intro h k d hd hlen msg hmsg
    exact h k d hd msg (by rw [onUdpData_eq, if_pos hlen, hmsg])
  intro h k d hd msg hmsg
  rw [onUdpData_eq] at hmsg
  split at hmsg
  · rename_i hlen
    exact h k d hd hlen msg hmsg
  · cases hmsg

def rootFrame : Bytes :=
  (portalWireEncodeMsg
    { PortalMsg.zero with
      path := some (CStr.lit "/s").bytes
      ctx := some { PortalCtx.zero with auth.user := some portalRootUser.bytes } }).elim []
    (·.written)

def labelledInstance : PortalInstance where
  paths := (portalPathAddLabel
    (portalPathRegister portalPathInit (.lit "/s") (.lit "m")).1 (.lit "/s") (.lit "staff")).1
  modules := [⟨.lit "m", true, false⟩]
  portalConfigGet _ _ := none

/-- With no user and no session, the frame is dispatched as `root`, and the router hands it to the
module behind the label. -/
theorem listeners_backed_false :
    ¬ TcpBacked (fun _ => (⟨[], []⟩, 0)) rootFrame ∧
      (decodeFrame rootFrame).map (fun msg => (apiSend labelledInstance 1 1 msg).1)
        = some (.handle (.lit "m")) := by
  constructor
  · intro h
    have hrun : ∃ msg, (tcpRun [false] [rootFrame])[0]? = some (some msg) ∧
        ∃ c, msg.ctx = some c ∧ c.auth.user ≠ none ∧ c.auth.token = none := by
      refine ⟨(decodeFrame rootFrame).getD .zero, by decide +kernel,
        (((decodeFrame rootFrame).getD .zero).ctx).getD .zero, ?_⟩
      decide +kernel
    obtain ⟨msg, hmsg, c, hc, huser, htoken⟩ := hrun
    obtain ⟨u, _, hres⟩ := h [false] [rootFrame] (by simp) (by decide +kernel) 0 msg hmsg c hc
      (.inl huser)
    rw [htoken] at hres
    rcases hres with hres | hres <;> simp [portalAuthResolveToken, portalAuthFindByKey] at hres
  · decide +kernel

end Portal
