import TaskRunner.Base.BigEndian

/-!
The shared block of a worker, `IPCChannels` of `workers/ipc.py`. The queues, the pipe and the socket of the class are
left out: nothing of the worker reads them.
-/

namespace TaskRunner
open Base

/-- `struct.error`: a number that the format has no room for. -/
inductive StructError where
  | outOfRange (value : Int)

/-- A number as the format `Q` takes it. -/
def formatQ (value : Int) : Except StructError ℕ :=
  if 0 ≤ value ∧ value.toNat < 2 ^ 64 then .ok value.toNat else .error (.outOfRange value)

/-- The sixty-four bytes of `shared_metrics`. -/
structure IPCChannels where
  buf : List UInt8
  size : buf.length = 64

namespace IPCChannels

def init : IPCChannels := ⟨List.replicate 64 0, List.length_replicate⟩

def writeSharedCounters (ipc : IPCChannels) (running completed failed : Int) : Except StructError IPCChannels := do
  let r ← formatQ running
  let c ← formatQ completed
  let f ← formatQ failed
  return {
    buf := packBigEndian 8 [r, c, f] ++ ipc.buf.drop 24
    size := by
      rw [List.length_append, length_packBigEndian, List.length_drop, ipc.size]
      rfl }

def readSharedCounters (ipc : IPCChannels) : List ℕ := unpackBigEndian 8 3 (ipc.buf.take 24)

theorem formatQ_natCast {n : ℕ} (room : n < 2 ^ 64) : formatQ n = .ok n := by
  rw [formatQ, Int.toNat_natCast, if_pos ⟨Int.natCast_nonneg n, room⟩]

/-- Counters that fit are read back as they were written, and the rest of the block stays as it was. -/
theorem write_read (ipc : IPCChannels) {running completed failed : ℕ} (r : running < 2 ^ 64) (c : completed < 2 ^ 64)
    (f : failed < 2 ^ 64) :
    ∃ ipc', ipc.writeSharedCounters running completed failed = .ok ipc' ∧
      ipc'.readSharedCounters = [running, completed, failed] ∧ ipc'.buf.drop 24 = ipc.buf.drop 24 := by
  have length : (packBigEndian 8 [running, completed, failed]).length = 24 := length_packBigEndian 8 _
  have fit : ∀ field ∈ [running, completed, failed], field < 256 ^ 8 := by
    intro field member
    simp only [List.mem_cons, List.not_mem_nil, or_false] at member
    rcases member with rfl | rfl | rfl
    · exact r
    · exact c
    · exact f
  have unpacked := unpack_pack fit []
  rw [List.append_nil] at unpacked
  rw [writeSharedCounters, formatQ_natCast r, formatQ_natCast c, formatQ_natCast f]
  refine ⟨_, rfl, ?_, List.drop_left' length⟩
  rw [readSharedCounters, List.take_left' length]
  exact unpacked

theorem init_read : init.readSharedCounters = [0, 0, 0] := by decide +kernel

end IPCChannels

end TaskRunner
