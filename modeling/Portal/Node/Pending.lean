import Portal.Node.Reader

/-!
Responses and their requests on one federation connection, which share an untagged stream:
`on_inbound_data` takes a frame for the response of the first waiter, or for a request if nobody
waits. `items` lists what the other end really sends.
-/

namespace Portal

open List Framing Runs

/-! ### Statement -/

/-- A frame the other end sends: the answer to a request, or a request of its own. -/
structure Item where
  answers : Option Nat
  frame : Bytes
deriving DecidableEq

def Item.stream (items : List Item) : Bytes := (items.map Item.frame).flatten

/-- Well-formed frames, and every request is answered once and in order. -/
structure Answering (items : List Item) : Prop where
  frames : ∀ i ∈ items, nodeFormat.IsFrame i.frame
  inOrder : items.filterMap Item.answers = List.range (items.filterMap Item.answers).length

def itemAt : List Item → Nat → Option Item
  | [], _ => none
  | i :: is, n =>
    if n = 0 then some i
    else if n < i.frame.length then none
    else itemAt is (n - i.frame.length)

/-- The requests that the frames among the first `n` bytes answer. -/
def answersWithin : List Item → Nat → List Nat
  | [], _ => []
  | i :: is, n => if n = 0 then [] else i.answers.toList ++ answersWithin is (n - i.frame.length)

/-- The bytes that arrive are those of `items`, and no answer comes before its request. -/
def Delivers (items : List Item) (s : Conn) : ConnEvent → Prop
  | .arrive chunk => s.arrived ++ chunk <+: Item.stream items ∧
      ∀ k ∈ answersWithin items (s.arrived ++ chunk).length, k < s.sent
  | _ => True

/-- A possible step of the connection and its peer. -/
def PeerStep (items : List Item) (s : Conn) (e : ConnEvent) : Prop :=
  Enabled s e ∧ Delivers items s e

def Meaning.fits : Meaning → Option Nat → Bool
  | .response w _, answers => answers = some w
  | .request, answers => answers = none

def Interp.right (items : List Item) (i : Interp) : Bool :=
  (itemAt items i.offset).any fun item => i.frame = item.frame && i.meaning.fits item.answers

/-- Every waiter was given the response to its own request, no response was dispatched as a
request, and no request was taken for a response. -/
def Correlated (items : List Item) (s : Conn) : Prop := ∀ i ∈ s.log, i.right items = true

/-- The item comes in time: the waiter of a response still waits, and nobody waits when a
request comes. -/
def Item.inTime (item : Item) (pending : List Nat) : Bool :=
  match item.answers with
  | some k => decide (k ∈ pending)
  | none => pending = []

/-- A callback finds no frame in the buffer, and an item that it completes is in time. -/
def InTime (items : List Item) (s : Conn) : ConnEvent → Prop
  | .ready _ => ¬ s.Held ∧ ∀ item ∈ itemAt items s.base,
      item.frame.length ≤ s.rx.buf.length + s.sock.flatten.length → item.inTime s.pending = true
  | _ => True

instance (items : List Item) (s : Conn) : (e : ConnEvent) → Decidable (Delivers items s e)
  | .arrive chunk => inferInstanceAs (Decidable (s.arrived ++ chunk <+: Item.stream items ∧
      ∀ k ∈ answersWithin items (s.arrived ++ chunk).length, k < s.sent))
  | .ready _ | .hangup | .error | .writeFail | .enter | .leave | .call | .callElse | .wakeElse
  | .timeout | .wake | .finish => .isTrue trivial

instance (items : List Item) (s : Conn) (e : ConnEvent) : Decidable (PeerStep items s e) :=
  inferInstanceAs (Decidable (Enabled s e ∧ Delivers items s e))

instance (items : List Item) (s : Conn) : (e : ConnEvent) → Decidable (InTime items s e)
  | .ready _ => inferInstanceAs (Decidable (¬ s.Held ∧ ∀ item ∈ itemAt items s.base,
      item.frame.length ≤ s.rx.buf.length + s.sock.flatten.length → item.inTime s.pending = true))
  | .arrive _ | .hangup | .error | .writeFail | .enter | .leave | .call | .callElse | .wakeElse
  | .timeout | .wake | .finish => .isTrue trivial

instance (items : List Item) (s : Conn) : Decidable (Correlated items s) :=
  inferInstanceAs (Decidable (∀ i ∈ s.log, i.right items = true))

/-! ### The invariant -/

/-- The items in front of the reader are done, and those who wait, wait for later ones. -/
structure Matched (items done : List Item) (s : Conn) : Prop where
  split : done <+: items
  log : s.log.map Interp.frame = done.map Item.frame
  right : Correlated items s
  sorted : s.pending.Pairwise (· < ·)
  sent : ∀ w ∈ s.pending, w < s.sent
  later : ∀ w ∈ s.pending, (done.filterMap Item.answers).length ≤ w
  answered : (done.filterMap Item.answers).length ≤ s.sent

theorem matched_initial (items : List Item) : Matched items [] .initial := by
  constructor <;> simp [Conn.initial, Correlated]

variable {items done : List Item}

theorem Matched.of_pending {s t : Conn} (h : Matched items done s)
    (hlog : t.log = s.log) (hsent : t.sent = s.sent) (hsub : t.pending.Sublist s.pending) :
    Matched items done t where
  split := h.split
  log := hlog ▸ h.log
  right := by
    rw [Correlated, hlog]
    exact h.right
  sorted := h.sorted.sublist hsub
  sent w hw := hsent ▸ h.sent w (hsub.subset hw)
  later w hw := h.later w (hsub.subset hw)
  answered := hsent ▸ h.answered

theorem Matched.call {s : Conn} (h : Matched items done s) :
    Matched items done (connStep s .call) where
  split := h.split
  log := h.log
  right := h.right
  sorted := by
    refine pairwise_append.mpr ⟨h.sorted, pairwise_singleton _ _, fun w hw v hv => ?_⟩
    rw [mem_singleton.mp hv]
    exact h.sent w hw
  sent w hw := by
    rcases mem_append.mp hw with hw | hw
    · exact Nat.lt_succ_of_lt (h.sent w hw)
    · rw [mem_singleton.mp hw]
      exact Nat.lt_succ_self _
  later w hw := by
    rcases mem_append.mp hw with hw | hw
    · exact h.later w hw
    · rw [mem_singleton.mp hw]
      exact h.answered
  answered := Nat.le_succ_of_le h.answered

theorem next_item (hframes : ∀ i ∈ items, nodeFormat.IsFrame i.frame)
    (hdone : done <+: items) {f : Bytes} (rest : Bytes) (hf : nodeFormat.IsFrame f)
    (harr : Item.stream done ++ (f ++ rest) <+: Item.stream items) :
    ∃ item after, items = done ++ item :: after ∧ item.frame = f := by
  obtain ⟨todo, rfl⟩ := hdone
  obtain ⟨u, hu⟩ := harr
  simp only [Item.stream, map_append, flatten_append, append_assoc, append_cancel_left_eq] at hu
  cases todo with
  | nil =>
    simp only [map_nil, flatten_nil, append_eq_nil_iff] at hu
    exact absurd hf.length_pos (by simp [hu.1])
  | cons item after =>
    have hi : nodeFormat.IsFrame item.frame := hframes item (by simp)
    rw [map_cons, flatten_cons] at hu
    have hhead := nodeFormat.head_append hi (after.map Item.frame).flatten
    rw [← hu, nodeFormat.head_append hf] at hhead
    injection hhead with hfi
    exact ⟨item, after, rfl, hfi.symm⟩

variable {done after : List Item}

theorem itemAt_split {item : Item} (hframes : ∀ i ∈ done, nodeFormat.IsFrame i.frame) :
    itemAt (done ++ item :: after) (Item.stream done).length = some item := by
  induction done with
  | nil => simp [itemAt, Item.stream]
  | cons i is ih =>
    obtain ⟨hi, his⟩ := forall_mem_cons.mp hframes
    have hlen : (Item.stream (i :: is)).length = i.frame.length + (Item.stream is).length := by
      simp [Item.stream]
    have hpos := hi.length_pos
    rw [cons_append, itemAt, hlen, if_neg (by omega), if_neg (by omega), Nat.add_sub_cancel_left]
    exact ih his

variable {items : List Item}

/-- In order: the next answer is to the request after those answered so far. -/
theorem Answering.next {item : Item} (h : Answering items) (hsplit : items = done ++ item :: after)
    {k : Nat} (hk : item.answers = some k) : k = (done.filterMap Item.answers).length := by
  have hord := h.inOrder
  rw [hsplit, filterMap_append, filterMap_cons_some hk] at hord
  have hget := congrArg (fun l => l[(done.filterMap Item.answers).length]?) hord
  simpa [getElem?_range] using hget

theorem head_of_sorted {l : List Nat} {k : Nat} (hs : l.Pairwise (· < ·)) (hk : k ∈ l)
    (hle : ∀ w ∈ l, k ≤ w) : ∃ ws, l = k :: ws := by
  cases l with
  | nil => cases hk
  | cons w ws =>
    refine ⟨ws, ?_⟩
    rcases mem_cons.mp hk with rfl | hmem
    · rfl
    · have hlt := (pairwise_cons.mp hs).1 k hmem
      have hle := hle w mem_cons_self
      omega

theorem interpret_response (s : Conn) {w : Nat} {ws : List Nat} (hp : s.pending = w :: ws)
    (started : Bool) :
    (∃ b, (s.interpret started).log = s.log ++ [⟨s.base, s.rx.buf, .response w b⟩]) ∧
      (s.interpret started).pending = ws ∧ (s.interpret started).sent = s.sent := by
  rw [Conn.interpret, hp]
  exact ⟨⟨_, rfl⟩, rfl, rfl⟩

theorem interpret_request (s : Conn) (hp : s.pending = []) (started : Bool) :
    (s.interpret started).log = s.log ++ [⟨s.base, s.rx.buf, .request⟩] ∧
      (s.interpret started).pending = [] ∧ (s.interpret started).sent = s.sent := by
  rw [Conn.interpret, hp]
  dsimp only
  split
  · exact ⟨rfl, hp, rfl⟩
  · exact ⟨rfl, hp, rfl⟩
  · exact ⟨rfl, hp, rfl⟩
  · split <;> exact ⟨rfl, hp, rfl⟩
  · split <;> exact ⟨rfl, hp, rfl⟩
  · exact ⟨rfl, hp, rfl⟩

/-- An item that comes in time goes to the one it is for. -/
theorem Matched.interpret {item : Item} {s : Conn} (h : Matched items done s)
    (hans : Answering items) (hsplit : items = done ++ item :: after)
    (hat : itemAt items s.base = some item) (hframe : s.rx.buf = item.frame)
    (htime : item.inTime s.pending = true) (started : Bool) :
    Matched items (done ++ [item]) (s.interpret started) := by
  have hpre : done ++ [item] <+: items := ⟨after, by simp [hsplit]⟩
  have hright : ∀ m : Meaning, m.fits item.answers = true →
      (⟨s.base, s.rx.buf, m⟩ : Interp).right items = true := by
    intro m hm
    simp [Interp.right, hat, hframe, hm]
  have hcorr : ∀ (t : Conn) (m : Meaning), m.fits item.answers = true →
      t.log = s.log ++ [⟨s.base, s.rx.buf, m⟩] → Correlated items t := by
    intro t m hm hlog i hi
    rw [hlog] at hi
    rcases mem_append.mp hi with hi | hi
    · exact h.right i hi
    · rw [mem_singleton.mp hi]
      exact hright m hm
  have hlogs : ∀ (t : Conn) (m : Meaning), t.log = s.log ++ [⟨s.base, s.rx.buf, m⟩] →
      t.log.map Interp.frame = (done ++ [item]).map Item.frame := by
    intro t m hlog
    simp [hlog, h.log, hframe]
  cases ha : item.answers with
  | none =>
    have hnone : s.pending = [] := by simpa [Item.inTime, ha] using htime
    obtain ⟨hlog, hp, hsent⟩ := interpret_request s hnone started
    have hfits : Meaning.request.fits item.answers = true := by simp [Meaning.fits, ha]
    refine ⟨hpre, hlogs _ _ hlog, hcorr _ _ hfits hlog, by simp [hp], by simp [hp],
      by simp [hp], ?_⟩
    simpa [ha, hsent] using h.answered
  | some k =>
    have hmem : k ∈ s.pending := by simpa [Item.inTime, ha] using htime
    have hk := hans.next hsplit ha
    obtain ⟨ws, hws⟩ := head_of_sorted h.sorted hmem fun w hw => hk ▸ h.later w hw
    obtain ⟨⟨b, hlog⟩, hp, hsent⟩ := interpret_response s hws started
    have hsorted := h.sorted
    rw [hws, pairwise_cons] at hsorted
    have hcount : ((done ++ [item]).filterMap Item.answers).length = k + 1 := by
      simp [ha, hk]
    have hfits : (Meaning.response k b).fits item.answers = true := by simp [Meaning.fits, ha]
    refine ⟨hpre, hlogs _ _ hlog, hcorr _ _ hfits hlog, ?_, ?_, ?_, ?_⟩
    · exact hp ▸ hsorted.2
    · intro w hw
      rw [hp] at hw
      rw [hsent]
      exact h.sent w (hws ▸ mem_cons_of_mem k hw)
    · intro w hw
      rw [hp] at hw
      rw [hcount]
      exact hsorted.1 w hw
    · rw [hcount, hsent]
      exact h.sent k hmem

/-! ### Steps and runs -/

/-- What a run keeps: the reader's own invariant, the items, and where the bytes come from. -/
def Followed (items : List Item) (s : Conn) : Prop :=
  Tracks s ∧ s.arrived <+: Item.stream items ∧ ∃ done, Matched items done s

theorem followed_initial (items : List Item) : Followed items .initial :=
  ⟨tracks_initial, nil_prefix, [], matched_initial items⟩

theorem Matched.ready {s : Conn} (h : Matched items done s)
    (hans : Answering items) (ht : Tracks s) (harr : s.arrived <+: Item.stream items)
    (hup : s.link = .up) (started : Bool) (htime : InTime items s (.ready started)) :
    ∃ done', Matched items done' (onInboundData s started) := by
  obtain ⟨pre, hcov, -, hcase⟩ := ht
  have hr : s.Reading pre := (hcase hup).resolve_right fun hh => htime.1 hh.held
  have hpre : pre = Item.stream done := by rw [hcov.frames.2, h.log, Item.stream]
  rcases onInboundData_cases hr.waiting started with
    ⟨rx, sock, -, -, -, heq⟩ | ⟨-, heq⟩ | ⟨f, sock, hf, hwhole, heq⟩
  · refine ⟨done, ?_⟩
    rw [heq]
    split
    · exact h.of_pending rfl rfl (nil_sublist _)
    · exact h.of_pending rfl rfl (.refl _)
  · rw [heq]
    exact ⟨done, h.of_pending rfl rfl (nil_sublist _)⟩
  · have hbase : s.base = (Item.stream done).length := by rw [hr.base, hpre]
    obtain ⟨item, after, hsplit, hitem⟩ := next_item hans.frames h.split sock.flatten hf
      (by rw [← hpre, ← hwhole, ← hr.arrived]; exact harr)
    have hat : itemAt items s.base = some item := by
      rw [hbase, hsplit]
      exact itemAt_split fun i hi => hans.frames i (h.split.subset hi)
    have hlen : item.frame.length ≤ s.rx.buf.length + s.sock.flatten.length := by
      rw [← length_append, hwhole, hitem, length_append]
      exact Nat.le_add_right _ _
    rw [heq]
    have h' : Matched items done { s with rx := ⟨f, f.length⟩, sock } :=
      h.of_pending rfl rfl (.refl _)
    exact ⟨done ++ [item], h'.interpret hans hsplit hat hitem.symm (htime.2 item hat hlen) started⟩

theorem Followed.step (hans : Answering items) (s : Conn) (e : ConnEvent) (h : Followed items s)
    (he : PeerStep items s e) (htime : InTime items s e) : Followed items (connStep s e) := by
  obtain ⟨ht, harr, done, hm⟩ := h
  have hheld : NotHeld s e := by
    cases e with
    | ready started => exact htime.1
    | _ => trivial
  have hmatched : ∃ done', Matched items done' (connStep s e) := by
    cases e with
    | ready started => exact hm.ready hans ht harr he.1.1 started htime
    | call => exact ⟨done, hm.call⟩
    | error | writeFail => exact ⟨done, hm.of_pending rfl rfl (nil_sublist _)⟩
    | timeout => exact ⟨done, hm.of_pending rfl rfl filter_sublist⟩
    | _ => exact ⟨done, hm.of_pending rfl rfl (.refl _)⟩
  refine ⟨ht.step e he.1 hheld, ?_, hmatched⟩
  cases e with
  | arrive chunk => exact he.2.1
  | ready started => exact arrived_ready s started ▸ harr
  | _ => exact harr

/-- With an answering peer, and if every callback that completes an item finds it in time, every
waiter that is given a response is given the one to its own request, no response is dispatched as a
request, and no request is taken for a response. -/
theorem correlated_of_inTime (items : List Item) (hans : Answering items) (es : List ConnEvent)
    (hrun : Along connStep (PeerStep items) .initial es)
    (htime : Along connStep (InTime items) .initial es) :
    Correlated items (run connStep .initial es) := by
  have h : Followed items (run connStep .initial es) :=
    (hrun.and htime).invariant (fun s e hs hc => hs.step hans s e hc.1 hc.2)
      (followed_initial items)
  obtain ⟨-, -, done, hm⟩ := h
  exact hm.right

/-! ### A late response -/

def okFrame : Bytes := writeU32 8 ++ writeU16 200 ++ writeU16 0 ++ writeU32 0

theorem isFrame_okFrame : nodeFormat.IsFrame okFrame := ⟨by decide +kernel, by decide +kernel⟩

/-- A request is answered in time, and a request of the peer comes when nobody waits. -/
def promptRun : List ConnEvent :=
  [.enter, .call, .arrive okFrame, .ready false, .wake, .leave, .arrive plainFrame, .ready false]

def promptItems : List Item := [⟨some 0, okFrame⟩, ⟨none, plainFrame⟩]

theorem correlated_promptRun :
    ((run connStep .initial promptRun).log.map Interp.meaning = [.response 0 true, .request]) ∧
      Correlated promptItems (run connStep .initial promptRun) := by
  have hans : Answering promptItems := by
    refine ⟨?_, by decide⟩
    simp [promptItems, isFrame_okFrame, isFrame_plainFrame]
  exact ⟨by decide +kernel, correlated_of_inTime promptItems hans promptRun (by decide +kernel)
    (by decide +kernel)⟩

/-- The first request times out, and its response arrives when the second one waits. -/
def lateRun : List ConnEvent :=
  [.enter, .call, .timeout, .wake, .call, .arrive okFrame, .ready false]

def lateItems : List Item := [⟨some 0, okFrame⟩]

/-- The second waiter is given the response to the first request. -/
theorem correlated_false :
    Answering lateItems ∧ Along connStep (PeerStep lateItems) .initial lateRun ∧
      (run connStep .initial lateRun).log = [⟨0, okFrame, .response 1 true⟩] ∧
      ¬ Correlated lateItems (run connStep .initial lateRun) := by
  refine ⟨⟨?_, by decide⟩, by decide +kernel, by decide +kernel, by decide +kernel⟩
  simp [lateItems, isFrame_okFrame]

end Portal
