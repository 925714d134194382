import Mathlib.Data.List.Basic
import Mathlib.Tactic.Common

/-!
Length-prefixed frames over an arbitrary alphabet, and reading them from a socket in pieces.

`Format.head` looks at the start of a stream: it is too short to tell, announces an unacceptable
length, or starts with a complete frame (`head_eq_frame_iff`, `head_invalid_append`).

A socket is the list of the chunks that reads will return; running out of them is "would block".
`pass` is the usual resumable reader: header, length, body, with what it has in `Rx` when it must
wait. `pass_spec` says that a pass computes `head`, wherever the stream was cut.
-/

namespace Framing

open List

variable {β : Type}

/-! ### Formats and frames -/

structure Format (β : Type) where
  header : Nat
  header_pos : 0 < header
  /-- The payload length a header announces; `none` if it is out of range. -/
  payload : List β → Option Nat

inductive Head (β : Type) where
  | incomplete
  | invalid
  | frame (f rest : List β)

variable {F : Format β}

def Format.head (F : Format β) (s : List β) : Head β :=
  if s.length < F.header then .incomplete
  else
    match F.payload (s.take F.header) with
    | none => .invalid
    | some n =>
      if s.length < F.header + n then .incomplete
      else .frame (s.take (F.header + n)) (s.drop (F.header + n))

/-- A header and exactly the payload it announces. -/
def Format.IsFrame (F : Format β) (f : List β) : Prop :=
  F.header ≤ f.length ∧ F.payload (f.take F.header) = some (f.length - F.header)

theorem Format.IsFrame.length_pos {f : List β} (h : F.IsFrame f) : 0 < f.length :=
  Nat.lt_of_lt_of_le F.header_pos h.1

open Format

theorem Format.head_append {f : List β} (h : F.IsFrame f) (s : List β) :
    F.head (f ++ s) = .frame f s := by
  obtain ⟨hlen, hpay⟩ := h
  have htake : (f ++ s).take F.header = f.take F.header := take_append_of_le_length hlen
  have hsum : F.header + (f.length - F.header) = f.length := by omega
  rw [head, if_neg (by simp; omega), htake, hpay]
  simp only [hsum, length_append]
  rw [if_neg (by omega), take_left, drop_left]

theorem Format.head_eq_frame_iff {s f rest : List β} :
    F.head s = .frame f rest ↔ F.IsFrame f ∧ s = f ++ rest := by
  constructor
  · intro h
    rw [head] at h
    split at h
    · cases h
    split at h
    · cases h
    rename_i n hpay
    split at h
    · cases h
    injection h with hf hrest
    subst hf hrest
    refine ⟨⟨?_, ?_⟩, (take_append_drop _ _).symm⟩
    · simp only [length_take]
      omega
    · rw [take_take, Nat.min_eq_left (by omega), hpay, length_take]
      congr 1
      omega
  · rintro ⟨hf, rfl⟩
    exact F.head_append hf rest

/-- An unacceptable header stays unacceptable, whatever follows. -/
theorem Format.head_invalid_append {s : List β} (h : F.head s = .invalid) (t : List β) :
    F.head (s ++ t) = .invalid := by
  rw [head] at h
  split at h
  · cases h
  split at h
  · rename_i hpay
    have htake : (s ++ t).take F.header = s.take F.header := take_append_of_le_length (by omega)
    rw [head, if_neg (by simp; omega), htake, hpay]
  · split at h <;> cases h

theorem Format.head_nil : F.head [] = .incomplete := by
  rw [head, if_pos]
  exact F.header_pos

/-- A stream can be cut into frames in one way only. -/
theorem Format.prefix_of_flatten_prefix {gs fs : List (List β)} (hgs : ∀ g ∈ gs, F.IsFrame g)
    (hfs : ∀ f ∈ fs, F.IsFrame f) (h : gs.flatten <+: fs.flatten) : gs <+: fs := by
  induction gs generalizing fs with
  | nil => exact nil_prefix
  | cons g gs ih =>
    obtain ⟨hg, hgs⟩ := forall_mem_cons.mp hgs
    obtain ⟨rest, heq⟩ := h
    rw [flatten_cons, append_assoc] at heq
    have hhead := F.head_append hg (gs.flatten ++ rest)
    rw [heq] at hhead
    cases fs with
    | nil =>
      rw [flatten_nil, F.head_nil] at hhead
      cases hhead
    | cons f fs =>
      obtain ⟨hf, hfs⟩ := forall_mem_cons.mp hfs
      rw [flatten_cons, F.head_append hf] at hhead
      injection hhead with hfg hrest
      rw [hfg, prefix_cons_inj]
      exact ih hgs hfs ⟨rest, hrest.symm⟩

/-! ### Reading from a socket -/

/-- Read until `want` bytes are there or the socket would block: what was read, and what is left. A
read returns at most the next chunk. -/
def drain : Nat → List (List β) → List β × List (List β)
  | _, [] => ([], [])
  | want, c :: cs =>
    if want = 0 then ([], c :: cs)
    else if c.length ≤ want then
      let d := drain (want - c.length) cs
      (c ++ d.1, d.2)
    else (c.take want, c.drop want :: cs)

/-- How the stream is cut into chunks does not matter. -/
theorem drain_spec (want : Nat) (cs : List (List β)) :
    (drain want cs).1 = cs.flatten.take want ∧
      (drain want cs).2.flatten = cs.flatten.drop want := by
  induction cs generalizing want with
  | nil => simp [drain]
  | cons c cs ih =>
    rw [drain]
    split
    · rename_i h0
      simp [h0]
    split
    · rename_i hle
      obtain ⟨h₁, h₂⟩ := ih (want - c.length)
      simp only [flatten_cons, h₁, h₂]
      rw [take_append, drop_append, take_of_length_le hle, drop_of_length_le hle, nil_append]
      exact ⟨rfl, rfl⟩
    simp only [flatten_cons]
    rw [take_append_of_le_length (by omega), drop_append_of_le_length (by omega)]
    exact ⟨rfl, rfl⟩

/-- The bytes a resumable reader has, and the full length of the frame once the header is there (0
before). -/
structure Rx (β : Type) where
  buf : List β
  need : Nat
deriving DecidableEq

def Rx.empty : Rx β := ⟨[], 0⟩

inductive Pass (β : Type) where
  | blocked (rx : Rx β) (sock : List (List β))
  | invalid
  | frame (rx : Rx β) (sock : List (List β))

/-- One pass of the reader: the header, the length it announces, the body. -/
def pass (F : Format β) (rx : Rx β) (sock : List (List β)) : Pass β :=
  let d := drain (F.header - rx.buf.length) sock
  let buf := rx.buf ++ d.1
  if buf.length < F.header then .blocked { rx with buf } d.2
  else
    match
        if rx.need = 0 then (F.payload (buf.take F.header)).map (F.header + ·)
        else some rx.need with
    | none => .invalid
    | some need =>
      let d' := drain (need - buf.length) d.2
      let buf' := buf ++ d'.1
      if buf'.length < need then .blocked ⟨buf', need⟩ d'.2 else .frame ⟨buf', need⟩ d'.2

/-- The reader is between two calls, inside a frame or before one. -/
def Rx.Waiting (F : Format β) (rx : Rx β) : Prop :=
  (rx.need = 0 ∧ rx.buf.length < F.header) ∨
    ∃ n, F.header ≤ rx.buf.length ∧ F.payload (rx.buf.take F.header) = some n ∧
      rx.need = F.header + n ∧ rx.buf.length < rx.need

theorem Rx.waiting_empty : (Rx.empty : Rx β).Waiting F := .inl ⟨rfl, F.header_pos⟩

theorem Rx.Waiting.head_incomplete {rx : Rx β} (h : rx.Waiting F) :
    F.head rx.buf = .incomplete := by
  rcases h with ⟨_, hlt⟩ | ⟨n, hlen, hpay, hneed, hlt⟩
  · rw [Format.head, if_pos hlt]
  · rw [Format.head, if_neg (by omega), hpay]
    simp only
    rw [if_pos (by omega)]

theorem drain_zero (cs : List (List β)) : drain 0 cs = ([], cs) := by
  cases cs <;> simp [drain]

/-- What a pass owes to its caller, by what the stream starts with. -/
def PassSpec (F : Format β) (whole : List β) (p : Pass β) : Prop :=
  match F.head whole with
  | .incomplete => ∃ rx' sock', p = .blocked rx' sock' ∧ rx'.Waiting F ∧ rx'.buf = whole ∧
      sock'.flatten = []
  | .invalid => p = .invalid
  | .frame f rest => ∃ sock', p = .frame ⟨f, f.length⟩ sock' ∧ sock'.flatten = rest

/-- The body phase, once the header is there. -/
theorem passSpec_body {buf : List β} {n : Nat} (hlen : F.header ≤ buf.length)
    (hpay : F.payload (buf.take F.header) = some n) (hshort : buf.length ≤ F.header + n)
    (sock : List (List β)) :
    PassSpec F (buf ++ sock.flatten)
      (let d := drain (F.header + n - buf.length) sock
       if (buf ++ d.1).length < F.header + n then .blocked ⟨buf ++ d.1, F.header + n⟩ d.2
       else .frame ⟨buf ++ d.1, F.header + n⟩ d.2) := by
  obtain ⟨h₁, h₂⟩ := drain_spec (F.header + n - buf.length) sock
  have htake : (buf ++ sock.flatten).take F.header = buf.take F.header :=
    take_append_of_le_length hlen
  have hhead : F.head (buf ++ sock.flatten) =
      if (buf ++ sock.flatten).length < F.header + n then .incomplete
      else .frame ((buf ++ sock.flatten).take (F.header + n))
        ((buf ++ sock.flatten).drop (F.header + n)) := by
    rw [Format.head, if_neg (by simp; omega), htake, hpay]
  simp only [PassSpec, hhead, h₁]
  by_cases hfull : (buf ++ sock.flatten).length < F.header + n
  · have hall : sock.flatten.take (F.header + n - buf.length) = sock.flatten := by
      simp only [length_append] at hfull
      exact take_of_length_le (by omega)
    rw [if_pos hfull, hall, if_pos hfull]
    refine ⟨_, _, rfl, .inr ⟨n, ?_, ?_, rfl, hfull⟩, rfl, ?_⟩
    · simp only [length_append]
      omega
    · rw [htake, hpay]
    · simp only [length_append] at hfull
      rw [h₂, drop_of_length_le (by omega)]
  · have hbody : buf ++ sock.flatten.take (F.header + n - buf.length)
        = (buf ++ sock.flatten).take (F.header + n) := by
      rw [take_append, take_of_length_le hshort]
    have hexact : ((buf ++ sock.flatten).take (F.header + n)).length = F.header + n := by
      rw [length_take]
      omega
    rw [if_neg hfull, hbody, if_neg (by omega)]
    simp only [hexact]
    refine ⟨_, rfl, ?_⟩
    rw [h₂, drop_append, drop_of_length_le hshort, nil_append]

/-- One pass computes `head` of what is buffered and what is on the socket. -/
theorem pass_spec {rx : Rx β} (h : rx.Waiting F) (sock : List (List β)) :
    PassSpec F (rx.buf ++ sock.flatten) (pass F rx sock) := by
  rcases h with ⟨hneed, hlt⟩ | ⟨n, hlen, hpay, hneed, hlt⟩
  · -- The header is not complete yet.
    obtain ⟨h₁, h₂⟩ := drain_spec (F.header - rx.buf.length) sock
    have hbuf : rx.buf ++ (drain (F.header - rx.buf.length) sock).1
        = (rx.buf ++ sock.flatten).take F.header := by
      rw [h₁, take_append, take_of_length_le (by omega : rx.buf.length ≤ F.header)]
    have hwhole : (rx.buf ++ sock.flatten).take F.header
        ++ (drain (F.header - rx.buf.length) sock).2.flatten = rx.buf ++ sock.flatten := by
      rw [← hbuf, append_assoc, h₁, h₂, take_append_drop]
    rw [pass]
    simp only [hbuf, hneed, if_true]
    by_cases hshort : (rx.buf ++ sock.flatten).length < F.header
    · have hall : (rx.buf ++ sock.flatten).take F.header = rx.buf ++ sock.flatten :=
        take_of_length_le (by omega)
      rw [hall, if_pos hshort, PassSpec, Format.head, if_pos hshort]
      refine ⟨_, _, rfl, .inl ⟨rfl, hshort⟩, rfl, ?_⟩
      simp only [length_append] at hshort
      rw [h₂, drop_of_length_le (by omega)]
    · have hexact : ((rx.buf ++ sock.flatten).take F.header).length = F.header := by
        rw [length_take]
        omega
      rw [if_neg (by omega), take_take, Nat.min_self]
      cases hpay : F.payload ((rx.buf ++ sock.flatten).take F.header) with
      | none =>
        have hhead : F.head (rx.buf ++ sock.flatten) = .invalid := by
          rw [Format.head, if_neg hshort, hpay]
        simp [PassSpec, hhead]
      | some n =>
        have hbody := passSpec_body (F := F) (n := n) (Nat.le_of_eq hexact.symm)
          (by rw [take_take, Nat.min_self, hpay]) (by omega)
          (drain (F.header - rx.buf.length) sock).2
        rw [hwhole] at hbody
        exact hbody
  · have hzero : F.header - rx.buf.length = 0 := by omega
    rw [pass]
    simp only [hzero, drain_zero, append_nil]
    rw [if_neg (by omega), if_neg (by omega)]
    simp only [hneed]
    exact passSpec_body hlen hpay (by omega) sock

/-- A pass over a buffer that already holds a complete frame reads nothing. -/
theorem pass_complete {rx : Rx β} (hhdr : F.header ≤ rx.buf.length) (hneed : rx.need ≠ 0)
    (hfull : rx.need ≤ rx.buf.length) (sock : List (List β)) :
    pass F rx sock = .frame rx sock := by
  have h₁ : F.header - rx.buf.length = 0 := by omega
  have h₂ : rx.need - rx.buf.length = 0 := by omega
  rw [pass]
  simp only [h₁, drain_zero, append_nil]
  rw [if_neg (by omega), if_neg hneed]
  simp only [h₂, drain_zero, append_nil]
  rw [if_neg (by omega)]

end Framing
