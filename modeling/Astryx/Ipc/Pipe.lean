import Astryx.Lib.Ring

/-!
# Pipes are bounded byte queues

`ipc/pipe.rs`: a pipe is a ring of bytes with its number of bytes, so that all its cells can be in
use, and a resize lays the bytes out again from the start of a new ring. The calls take the pipe
that they find by its number in `PIPE_TABLE`, under the lock of the table. Waking is left out.

## Main results

* `calls_fifo` — over any calls on a new pipe, what was read and what is buffered is what was
  accepted
-/

namespace Astryx.Ipc

open Function List

/-- `PIPE_BUF_SIZE` -/
def pipeBufSize : ℕ := 4096

/-- `PIPE_DEFAULT_CAPACITY` -/
def pipeDefaultCapacity : ℕ := 65536

/-- `PIPE_MAX_CAPACITY` -/
def pipeMaxCapacity : ℕ := 2 ^ 20

/-- The ring of a pipe and its ends. -/
structure Pipe where
  id : ℕ
  buffer : ℕ → UInt8
  capacity : ℕ
  readPos : ℕ
  writePos : ℕ
  count : ℕ
  writers : ℕ
  readers : ℕ

/-- A pipe with one end of each kind. -/
def Pipe.new (id : ℕ) : Pipe := ⟨id, fun _ => 0, pipeDefaultCapacity, 0, 0, 0, 1, 1⟩

namespace Pipe

/-- The free room. -/
def space (p : Pipe) : ℕ := p.capacity - p.count

/-- The loop of `set_capacity`, `none` for `EPERM`. It doubles eight times before it is beyond the
maximum. -/
def roundUp (want : ℕ) : ℕ → ℕ → Option ℕ
  | 0, _ => none
  | fuel + 1, cap =>
    if cap < want then
      if pipeMaxCapacity < 2 * cap then none else roundUp want fuel (2 * cap)
    else some cap

/-- The live bytes at the start of a new ring. -/
def linearize (p : Pipe) (cap : ℕ) : Pipe :=
  { p with
    buffer := fun i => if i < p.count then p.buffer ((p.readPos + i) % p.capacity) else 0
    capacity := cap
    readPos := 0
    writePos := p.count % cap }

/-- Moves the bytes to a buffer of another size. -/
def setCapacity (p : Pipe) (want : ℕ) : Except ℤ ℕ × Pipe :=
  match roundUp want 9 pipeBufSize with
  | none => (.error (-1), p)
  | some cap => if cap < p.count then (.error (-16), p) else (.ok cap, p.linearize cap)

/-- Takes up to `len` bytes out. -/
def read (p : Pipe) (len : ℕ) : List UInt8 × Pipe :=
  let toRead := min len p.count
  let (bytes, readPos) := drain p.capacity p.buffer toRead p.readPos
  (bytes, { p with readPos, count := p.count - toRead })

/-- Puts as many bytes in as there is room for. -/
def write (p : Pipe) (data : List UInt8) : ℕ × Pipe :=
  let toWrite := min data.length p.space
  let (buffer, writePos) := fill p.capacity p.buffer p.writePos (data.take toWrite)
  (toWrite, { p with buffer, writePos, count := p.count + toWrite })

/-- `pipe_write_atomic`: whether all of `data` was put. -/
def writeAtomic (p : Pipe) (data : List UInt8) : Bool × Pipe :=
  if p.space < data.length then (false, p) else (true, (p.write data).2)

end Pipe

/-- A pipe with the bytes that were accepted from its writers and the ones that its readers got. -/
structure Stream where
  pipe : Pipe
  accepted : List UInt8
  got : List UInt8

/-- A call on a pipe. -/
inductive PipeCall where
  | read (len : ℕ)
  | write (data : List UInt8)
  | writeAtomic (data : List UInt8)
  | setCapacity (want : ℕ)

/-- One call, with what it read or accepted. -/
def callStep (s : Stream) : PipeCall → Stream
  | .read len => { s with pipe := (s.pipe.read len).2, got := s.got ++ (s.pipe.read len).1 }
  | .write data =>
    { s with
      pipe := (s.pipe.write data).2, accepted := s.accepted ++ data.take (s.pipe.write data).1 }
  | .writeAtomic data =>
    { s with
      pipe := (s.pipe.writeAtomic data).2
      accepted := if (s.pipe.writeAtomic data).1 then s.accepted ++ data else s.accepted }
  | .setCapacity want => { s with pipe := (s.pipe.setCapacity want).2 }

/-! ## One pipe -/

namespace Pipe

variable {p q : Pipe} {data : List UInt8} {n cap want len : ℕ}

/-- The bytes in the order in which they are read. -/
def contents (p : Pipe) : List UInt8 := window p.buffer p.capacity p.readPos p.count

/-- A power of two within the limits. -/
def IsCapacity (cap : ℕ) : Prop := pipeBufSize ≤ cap ∧ cap ≤ pipeMaxCapacity ∧ ∃ k, cap = 2 ^ k

/-- The ring is within its buffer. -/
structure Ok (p : Pipe) : Prop where
  capacity : IsCapacity p.capacity
  count : p.count ≤ p.capacity
  readPos : p.readPos < p.capacity
  writePos : p.writePos = (p.readPos + p.count) % p.capacity

lemma new_ok (id : ℕ) : (Pipe.new id).Ok :=
  have hlow : pipeBufSize ≤ pipeDefaultCapacity := by decide
  have hhigh : pipeDefaultCapacity ≤ pipeMaxCapacity := by decide
  ⟨⟨hlow, hhigh, 16, rfl⟩, Nat.zero_le _, (by decide : 0 < pipeDefaultCapacity), rfl⟩

example : roundUp pipeMaxCapacity 9 pipeBufSize = some pipeMaxCapacity := by decide

lemma roundUp_isCapacity {fuel : ℕ} {start : ℕ} (hstart : IsCapacity start)
    (h : roundUp want fuel start = some cap) : IsCapacity cap := by
  induction fuel generalizing start with
  | zero => cases h
  | succ fuel ih =>
    rw [roundUp] at h
    split_ifs at h with hlt hmax
    · obtain ⟨hlow, -, k, hk⟩ := hstart
      exact ih ⟨by omega, by omega, k + 1, by rw [hk, pow_succ']⟩ h
    · cases h
      exact hstart

/-- A resize fails and changes nothing, or lays out the same bytes in a ring of the capacity that it
returns. -/
lemma setCapacity_spec (p : Pipe) (want : ℕ) :
    p.setCapacity want = (.error (-1), p) ∨ p.setCapacity want = (.error (-16), p) ∨
      ∃ q, p.setCapacity want = (.ok q.capacity, q) ∧ q.Ok ∧ q.contents = p.contents := by
  rw [setCapacity]
  split
  · exact .inl rfl
  next cap hround =>
  have hcap := roundUp_isCapacity ⟨by decide, by decide, 12, rfl⟩ hround
  split
  · exact .inr (.inl rfl)
  next hfits =>
  have hpos : 0 < cap := lt_of_lt_of_le (by decide) hcap.1
  refine .inr (.inr ⟨p.linearize cap, rfl, ⟨hcap, not_lt.mp hfits, hpos, ?_⟩, ?_⟩)
  · exact (congrArg (· % cap) (zero_add p.count)).symm
  refine map_congr_left fun i hi => ?_
  have hi : i < p.count := mem_range.mp hi
  have hmod : (0 + i) % cap = i := by rw [zero_add, Nat.mod_eq_of_lt (by omega)]
  show (if (0 + i) % cap < p.count
    then p.buffer ((p.readPos + (0 + i) % cap) % p.capacity) else 0) = _
  rw [hmod, if_pos hi]

section

variable (hp : p.Ok)
include hp

lemma Ok.read_spec (len : ℕ) : (p.read len).2.Ok ∧
    p.contents = (p.read len).1 ++ (p.read len).2.contents := by
  have hcap : 0 < p.capacity := by have := hp.readPos; omega
  have hsplit : min len p.count + (p.count - min len p.count) = p.count := by omega
  rw [read, drain_eq hp.readPos]
  refine ⟨⟨hp.capacity, ?_, Nat.mod_lt _ hcap, ?_⟩, ?_⟩
  · exact (Nat.sub_le _ _).trans hp.count
  · rw [Nat.mod_add_mod, add_assoc, hsplit]
    exact hp.writePos
  · rw [contents, contents, ← window_append, hsplit]

lemma Ok.read_eq (len : ℕ) : (p.read len).1 = p.contents.take (min len p.count) := by
  have hlen : (p.read len).1.length = min len p.count := by
    rw [read, drain_eq hp.readPos]
    exact length_window
  rw [(hp.read_spec len).2, ← hlen, take_left]

lemma Ok.write_spec (data : List UInt8) :
    (p.write data).2.Ok ∧ (p.write data).2.contents = p.contents ++ data.take (p.write data).1 := by
  have hcap : 0 < p.capacity := by have := hp.readPos; omega
  have hlen : (data.take (min data.length p.space)).length = min data.length p.space := by simp
  have hroom : p.count + min data.length p.space ≤ p.capacity := by
    have := hp.count
    rw [space]
    omega
  have hfill := window_fill p.buffer p.readPos (data.take (min data.length p.space))
    (hlen.symm ▸ hroom)
  rw [← hp.writePos, hlen] at hfill
  refine ⟨⟨hp.capacity, hroom, hp.readPos, ?_⟩, hfill⟩
  show (fill p.capacity p.buffer p.writePos _).2 = _
  rw [fill_snd _ (hp.writePos ▸ Nat.mod_lt _ hcap), hlen, hp.writePos, Nat.mod_add_mod, add_assoc]
  rfl

lemma Ok.writeAtomic_spec (data : List UInt8) :
    p.writeAtomic data = (false, p) ∨
    ∃ q, p.writeAtomic data = (true, q) ∧ q.Ok ∧ q.contents = p.contents ++ data := by
  rw [writeAtomic]
  split
  · exact .inl rfl
  next hspace =>
  obtain ⟨hok, hcontents⟩ := hp.write_spec data
  have hall : (p.write data).1 = data.length := min_eq_left (not_lt.mp hspace)
  rw [hall, take_length] at hcontents
  exact .inr ⟨_, rfl, hok, hcontents⟩

end

end Pipe

/-! ## Whole runs -/

/-- What was read and what is buffered is what was accepted. -/
def Stream.Fifo (s : Stream) : Prop := s.pipe.Ok ∧ s.accepted = s.got ++ s.pipe.contents

lemma callStep_fifo {s : Stream} (h : s.Fifo) (call : PipeCall) : (callStep s call).Fifo := by
  obtain ⟨hp, hbytes⟩ := h
  cases call with
  | read len =>
    obtain ⟨hok, hcontents⟩ := hp.read_spec len
    refine ⟨hok, ?_⟩
    show s.accepted = s.got ++ (s.pipe.read len).1 ++ (s.pipe.read len).2.contents
    simp [hbytes, hcontents]
  | write data =>
    obtain ⟨hok, hcontents⟩ := hp.write_spec data
    refine ⟨hok, ?_⟩
    show s.accepted ++ data.take (s.pipe.write data).1 = s.got ++ (s.pipe.write data).2.contents
    simp [hbytes, hcontents]
  | writeAtomic data =>
    rw [callStep]
    obtain hcall | ⟨q, hcall, hq, hcontents⟩ := hp.writeAtomic_spec data
    · rw [hcall]
      exact ⟨hp, hbytes⟩
    rw [hcall]
    refine ⟨hq, ?_⟩
    show s.accepted ++ data = s.got ++ q.contents
    simp [hbytes, hcontents]
  | setCapacity want =>
    rw [callStep]
    obtain hcall | hcall | ⟨q, hcall, hq, hcontents⟩ := s.pipe.setCapacity_spec want
    · rw [hcall]
      exact ⟨hp, hbytes⟩
    · rw [hcall]
      exact ⟨hp, hbytes⟩
    · rw [hcall]
      exact ⟨hq, hbytes.trans (congrArg (s.got ++ ·) hcontents.symm)⟩

/-- **Pipes are bounded byte queues.** A read returns the first bytes and a write takes as many as
there is room for. An atomic write is accepted whole or not at all, and a resize that fails changes
nothing while one that succeeds keeps all bytes. -/
theorem calls_fifo (id : ℕ) (calls : List PipeCall) :
    let s := calls.foldl callStep ⟨.new id, [], []⟩
    s.accepted = s.got ++ s.pipe.contents ∧ s.pipe.contents.length = s.pipe.count ∧
      s.pipe.count ≤ s.pipe.capacity ∧ Pipe.IsCapacity s.pipe.capacity ∧
      (∀ len, (s.pipe.read len).1 = s.pipe.contents.take (min len s.pipe.count)) ∧
      (∀ data, (s.pipe.write data).1 = min data.length (s.pipe.capacity - s.pipe.count)) ∧
      (∀ data, s.pipe.writeAtomic data = (false, s.pipe) ∨
        ∃ q, s.pipe.writeAtomic data = (true, q) ∧ q.Ok ∧ q.contents = s.pipe.contents ++ data) ∧
      ∀ want, s.pipe.setCapacity want = (.error (-1), s.pipe) ∨
        s.pipe.setCapacity want = (.error (-16), s.pipe) ∨
        ∃ q, s.pipe.setCapacity want = (.ok q.capacity, q) ∧ q.Ok ∧
          q.contents = s.pipe.contents := by
  intro s
  have hfifo : s.Fifo := by
    have hnew : Stream.Fifo ⟨.new id, [], []⟩ := ⟨Pipe.new_ok id, rfl⟩
    exact foldlRecOn calls callStep hnew fun _ h call _ => callStep_fifo h call
  obtain ⟨hp, hbytes⟩ := hfifo
  exact ⟨hbytes, length_window, hp.count, hp.capacity, hp.read_eq, fun _ => rfl,
    hp.writeAtomic_spec, s.pipe.setCapacity_spec⟩

end Astryx.Ipc
