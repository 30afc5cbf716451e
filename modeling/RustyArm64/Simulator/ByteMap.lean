import RustyArm64.Simulator.Memory

/-! The memory as a bounded map from addresses to bytes. After any sequence of
calls it holds at each address the byte written there last. -/
namespace Simulator

/-- A call of one of the four memory operations. -/
inductive MemoryCall where
  | readU32 (addr : UInt64)
  | writeU32 (addr : UInt64) (val : UInt32)
  | writeBytes (addr : UInt64) (data : Bytes)
  | fillZeros (addr size : UInt64)
  deriving DecidableEq

/-- What a call returns: a read the word, a write nothing. -/
abbrev MemoryReply := Except MemoryError (Option UInt32)

namespace MemoryCall

def addr : MemoryCall → UInt64
  | .readU32 addr => addr
  | .writeU32 addr _ => addr
  | .writeBytes addr _ => addr
  | .fillZeros addr _ => addr

/-- The number of bytes in the range of a call. -/
def length : MemoryCall → Nat
  | .readU32 _ => 4
  | .writeU32 _ _ => 4
  | .writeBytes _ data => data.toList.length
  | .fillZeros _ size => size.toNat

/-- The bytes that a call writes to its range. -/
def values : MemoryCall → Option (List UInt8)
  | .readU32 _ => none
  | .writeU32 _ val => some (toLeBytes val)
  | .writeBytes _ data => some data.toList
  | .fillZeros _ size => some (List.replicate size.toNat 0)

/-- The range is empty or lies inside `size` bytes. -/
def Fits (size : Nat) (call : MemoryCall) : Prop :=
  call.length = 0 ∨ call.addr.toNat + call.length ≤ size

instance (size : Nat) (call : MemoryCall) : Decidable (call.Fits size) :=
  inferInstanceAs (Decidable (_ ∨ _))

/-- The write that a call makes in a memory of `size` bytes. -/
def write? (size : Nat) (call : MemoryCall) : Option (Nat × List UInt8) :=
  if call.Fits size then call.values.map (call.addr.toNat, ·) else none

/-- The byte that a sequence of calls on a new memory leaves at an address: the
one written there last, or zero. -/
def lastByte (size : Nat) (calls : List MemoryCall) (a : Nat) : UInt8 :=
  (List.lastWrite (calls.filterMap (write? size)) a).getD 0

end MemoryCall

namespace Memory

open MemoryCall

def call (m : Memory) : MemoryCall → Outcome (MemoryReply × Memory)
  | .readU32 addr => do
    let result ← m.readU32 addr
    return (result.map some, m)
  | .writeU32 addr val => do
    let (result, m) ← m.writeU32 addr val
    return (result.map fun _ => none, m)
  | .writeBytes addr data => do
    let (result, m) ← m.writeBytes addr data
    return (result.map fun _ => none, m)
  | .fillZeros addr size => do
    let (result, m) ← m.fillZeros addr size
    return (result.map fun _ => none, m)

/-- The calls one after the other, with their replies. -/
def calls (m : Memory) : List MemoryCall → Outcome (List MemoryReply × Memory)
  | [] => return ([], m)
  | first :: rest => do
    let (reply, m) ← m.call first
    let (replies, m) ← m.calls rest
    return (reply :: replies, m)

/-- What a call that fits returns. -/
def answer (m : Memory) : MemoryCall → Option UInt32
  | .readU32 addr => some (fromLeBytes ((m.bytes.drop addr.toNat).take 4))
  | _ => none

def reply (m : Memory) (call : MemoryCall) : MemoryReply :=
  if call.Fits m.bytes.length then .ok (m.answer call) else .error (.outOfBounds call.addr)

/-- The memory after a call. -/
def after (m : Memory) (call : MemoryCall) : Memory :=
  match call.write? m.bytes.length with
  | some write => m.store write.1 write.2
  | none => m

@[simp] theorem length_after (m : Memory) (call : MemoryCall) :
    (m.after call).bytes.length = m.bytes.length := by
  unfold after
  split <;> simp

/-- A write that lies in the memory stores its bytes in a row from its address. -/
theorem after_of_fits {m : Memory} {call : MemoryCall} {values : List UInt8}
    (hFits : call.Fits m.bytes.length) (hValues : call.values = some values) :
    m.after call = m.store call.addr.toNat values := by
  rw [after, write?, if_pos hFits, hValues]
  rfl

/-- A write that does not is refused as a whole. No prefix of it is stored. -/
theorem after_of_not_fits {m : Memory} {call : MemoryCall} (hFits : ¬call.Fits m.bytes.length) :
    m.after call = m := by
  rw [after, write?, if_neg hFits]

theorem after_readU32 (m : Memory) (addr : UInt64) : m.after (.readU32 addr) = m := by
  simp [after, write?, values]

/-- The three writes, each with its own bounds test. -/
theorem call_eq_of_write {m : Memory} {call : MemoryCall} {values : List UInt8} {inside : Prop}
    [Decidable inside] (hFits : call.Fits m.bytes.length ↔ inside)
    (hValues : call.values = some values) (hAnswer : m.answer call = none)
    {out : Except MemoryError Unit × Memory}
    (hOut : out = if inside then (.ok (), m.store call.addr.toNat values)
      else (.error (.outOfBounds call.addr), m))
    (hCall : m.call call = .ok (out.1.map fun _ => none, out.2)) :
    m.call call = .ok (m.reply call, m.after call) := by
  rw [hCall, hOut, reply]
  by_cases h : inside
  · rw [if_pos h, if_pos (hFits.mpr h), after_of_fits (hFits.mpr h) hValues, hAnswer]
    rfl
  · rw [if_neg h, if_neg (mt hFits.mp h), after_of_not_fits (mt hFits.mp h)]
    rfl

/-- The four operations are one: they fail if the range leaves the memory, and
else they answer and write as they should. -/
theorem call_eq (m : Memory) (call : MemoryCall) :
    m.call call = .ok (m.reply call, m.after call) := by
  cases call with
  | readU32 addr =>
      have hFits : (MemoryCall.readU32 addr).Fits m.bytes.length ↔
          addr.toNat + 4 ≤ m.bytes.length := by simp [Fits, MemoryCall.length, MemoryCall.addr]
      rw [Memory.call, readU32_eq, Outcome.ok_bind, after_readU32, reply]
      by_cases h : addr.toNat + 4 ≤ m.bytes.length
      · rw [word?_eq_some h, if_pos (hFits.mpr h)]
        rfl
      · rw [word?_eq_none (by omega), if_neg (mt hFits.mp h)]
        rfl
  | writeU32 addr val =>
      have hFits : (MemoryCall.writeU32 addr val).Fits m.bytes.length ↔
          addr.toNat + 4 ≤ m.bytes.length := by simp [Fits, MemoryCall.length, MemoryCall.addr]
      refine call_eq_of_write hFits rfl rfl rfl ?_
      rw [Memory.call, writeU32_eq, Outcome.ok_bind]
      rfl
  | writeBytes addr data =>
      have hFits : (MemoryCall.writeBytes addr data).Fits m.bytes.length ↔
          data.toList = [] ∨ addr.toNat + data.toList.length ≤ m.bytes.length := by
        simp [Fits, MemoryCall.length, MemoryCall.addr]
      refine call_eq_of_write hFits rfl rfl rfl ?_
      rw [Memory.call, writeBytes_eq, Outcome.ok_bind]
      rfl
  | fillZeros addr size =>
      have hFits : (MemoryCall.fillZeros addr size).Fits m.bytes.length ↔
          size.toNat = 0 ∨ addr.toNat + size.toNat ≤ m.bytes.length := Iff.rfl
      refine call_eq_of_write hFits rfl rfl rfl ?_
      rw [Memory.call, fillZeros_eq, Outcome.ok_bind]
      rfl

/-- A sequence of calls never panics. It leaves the writes of the calls that fit,
one after the other. -/
theorem calls_eq (m : Memory) (sequence : List MemoryCall) :
    ∃ replies final, m.calls sequence = .ok (replies, final) ∧
      replies.length = sequence.length ∧
      final.bytes = (sequence.filterMap (write? m.bytes.length)).foldl
        (fun old write => old.overwrite write.1 write.2) m.bytes := by
  induction sequence generalizing m with
  | nil => exact ⟨[], m, rfl, rfl, rfl⟩
  | cons first rest ih =>
      obtain ⟨replies, final, hRest, hLength, hBytes⟩ := ih (m.after first)
      refine ⟨m.reply first :: replies, final, ?_, congrArg (· + 1) hLength, ?_⟩
      · rw [calls, call_eq, Outcome.ok_bind]
        dsimp only
        rw [hRest]
        rfl
      · rw [hBytes, length_after, after]
        cases hWrite : first.write? m.bytes.length with
        | none => rw [List.filterMap_cons_none hWrite]
        | some write => rw [List.filterMap_cons_some hWrite, List.foldl_cons, bytes_store]

/-- A call in the middle of a sequence meets the memory that the calls before
it left, and its reply stands at its place. -/
theorem calls_middle (m : Memory) (past later : List MemoryCall) (call : MemoryCall) :
    ∃ replies middle rest final, m.calls past = .ok (replies, middle) ∧
      replies.length = past.length ∧
      m.calls (past ++ call :: later) = .ok (replies ++ middle.reply call :: rest, final) := by
  induction past generalizing m with
  | nil =>
      obtain ⟨rest, final, hLater, -⟩ := (m.after call).calls_eq later
      refine ⟨[], m, rest, final, rfl, rfl, ?_⟩
      rw [List.nil_append, calls, call_eq, Outcome.ok_bind]
      dsimp only
      rw [hLater]
      rfl
  | cons first past ih =>
      obtain ⟨replies, middle, rest, final, hPast, hLength, hAll⟩ := ih (m.after first)
      refine ⟨m.reply first :: replies, middle, rest, final, ?_, congrArg (· + 1) hLength, ?_⟩
      · rw [calls, call_eq, Outcome.ok_bind]
        dsimp only
        rw [hPast]
        rfl
      · rw [List.cons_append, calls, call_eq, Outcome.ok_bind]
        dsimp only
        rw [hAll]
        rfl

/-- After any calls on a new memory each address holds the byte written last. -/
theorem bytes_of_calls {size : UInt64} {sequence : List MemoryCall}
    {replies : List MemoryReply} {final : Memory}
    (h : (new size).calls sequence = .ok (replies, final)) :
    final.bytes.length = size.toNat ∧
      ∀ a < size.toNat, final.bytes[a]? = some (lastByte size.toNat sequence a) := by
  obtain ⟨_, _, hCalls, -, hBytes⟩ := (new size).calls_eq sequence
  rw [h] at hCalls
  cases hCalls
  have hSize : (new size).bytes.length = size.toNat := by simp
  rw [hBytes, hSize]
  constructor
  · rw [List.length_foldl_overwrite, hSize]
  · intro a ha
    have hZero : (new size).bytes[a]? = some 0 := by simp [ha]
    rw [List.getElem?_foldl_overwrite, hZero]
    rfl

/-- A word that fits is put together from the bytes at its four addresses. -/
theorem answer_readU32 {m : Memory} {addr : UInt64} {byte : Nat → UInt8}
    (hFits : addr.toNat + 4 ≤ m.bytes.length)
    (hBytes : ∀ a < m.bytes.length, m.bytes[a]? = some (byte a)) :
    m.answer (.readU32 addr) =
      some (fromLeBytes ((List.range 4).map fun k => byte (addr.toNat + k))) := by
  rw [answer]
  congr 2
  apply List.ext_getElem?
  intro k
  rw [List.getElem?_take, List.getElem?_drop, List.getElem?_map]
  by_cases hk : k < 4
  · rw [if_pos hk, hBytes _ (by omega), List.getElem?_range hk]
    rfl
  · rw [if_neg hk, List.getElem?_eq_none (by simpa using hk)]
    rfl

/-- What one call does in a memory of `size` bytes, after the calls in `past`. -/
structure CallReport (size : Nat) (past : List MemoryCall) (call : MemoryCall) (before : Memory)
    (reply : MemoryReply) (after : Memory) : Prop where
  succeeds : (∃ value, reply = .ok value) ↔
    call.length = 0 ∨ call.addr.toNat + call.length ≤ size
  fails : ∀ e, reply = .error e → e = .outOfBounds call.addr ∧ after = before
  reads : ∀ addr, call = .readU32 addr → after = before ∧ ∀ value, reply = .ok value →
    value = some (fromLeBytes ((List.range 4).map fun k => lastByte size past (addr.toNat + k)))
  writes : ∀ value values, reply = .ok value → call.values = some values →
    values.length = call.length ∧ ∀ a < size, after.bytes[a]? =
      if call.addr.toNat ≤ a ∧ a < call.addr.toNat + call.length
      then values[a - call.addr.toNat]? else before.bytes[a]?
  size : after.bytes.length = size

theorem values_length {call : MemoryCall} {values : List UInt8}
    (hValues : call.values = some values) : values.length = call.length := by
  cases call with
  | readU32 addr => cases hValues
  | writeU32 addr val =>
      cases hValues
      exact toLeBytes_length val
  | writeBytes addr data =>
      cases hValues
      rfl
  | fillZeros addr size =>
      cases hValues
      exact List.length_replicate ..

/-- A write that fits changes its range and nothing else. -/
theorem getElem?_after {m : Memory} {call : MemoryCall} {values : List UInt8}
    (hFits : call.Fits m.bytes.length) (hValues : call.values = some values) (a : Nat) :
    (m.after call).bytes[a]? =
      if call.addr.toNat ≤ a ∧ a < call.addr.toNat + call.length
      then values[a - call.addr.toNat]? else m.bytes[a]? := by
  have hLength := values_length hValues
  rw [after_of_fits hFits hValues, bytes_store]
  by_cases hInside : call.addr.toNat ≤ a ∧ a < call.addr.toNat + call.length
  · have hRange : call.addr.toNat + values.length ≤ m.bytes.length := by
      rcases hFits with hEmpty | hRange
      · omega
      · rwa [hLength]
    rw [if_pos hInside]
    exact List.getElem?_overwrite_inside hRange hInside.1 (by rw [hLength]; exact hInside.2)
  · rw [if_neg hInside]
    apply List.getElem?_overwrite_outside
    omega

/-- One call against the map of the bytes last written: its answer, and the map after it. -/
theorem callReport {size : Nat} {past : List MemoryCall} {m : Memory}
    (hSize : m.bytes.length = size)
    (hBytes : ∀ a < size, m.bytes[a]? = some (lastByte size past a)) (call : MemoryCall) :
    CallReport size past call m (m.reply call) (m.after call) where
  succeeds := by
    rw [reply, hSize]
    by_cases hFits : call.Fits size
    · rw [if_pos hFits]
      exact iff_of_true ⟨_, rfl⟩ hFits
    · rw [if_neg hFits]
      exact iff_of_false (fun ⟨_, hEq⟩ => nomatch hEq) hFits
  fails := by
    intro e hError
    by_cases hFits : call.Fits m.bytes.length
    · rw [reply, if_pos hFits] at hError
      cases hError
    · rw [reply, if_neg hFits] at hError
      cases hError
      exact ⟨rfl, after_of_not_fits hFits⟩
  reads := by
    rintro addr rfl
    refine ⟨after_readU32 m addr, ?_⟩
    intro value hOk
    by_cases hFits : (MemoryCall.readU32 addr).Fits m.bytes.length
    · have hRange : addr.toNat + 4 ≤ m.bytes.length := by
        simpa [Fits, MemoryCall.length, MemoryCall.addr] using hFits
      rw [reply, if_pos hFits, answer_readU32 hRange (by rw [hSize]; exact hBytes)] at hOk
      cases hOk
      rfl
    · rw [reply, if_neg hFits] at hOk
      cases hOk
  writes := by
    intro value values hOk hValues
    refine ⟨values_length hValues, fun a _ => ?_⟩
    by_cases hFits : call.Fits m.bytes.length
    · exact getElem?_after hFits hValues a
    · rw [reply, if_neg hFits] at hOk
      cases hOk
  size := by rw [length_after, hSize]

/-- Any sequence of calls on a new memory goes through without a panic, keeps the
size, and leaves at each address the byte written last. Each call reports as
stated about the memory that the calls before it left. -/
theorem refines_byteMap (size : UInt64) (sequence : List MemoryCall) :
    ∃ replies final, (new size).calls sequence = .ok (replies, final) ∧
      replies.length = sequence.length ∧ final.len = size ∧
      (∀ a < size.toNat, final.bytes[a]? = some (lastByte size.toNat sequence a)) ∧
      ∀ past call later, sequence = past ++ call :: later →
        ∃ before reply after, (new size).calls past = .ok (replies.take past.length, before) ∧
          replies[past.length]? = some reply ∧ before.call call = .ok (reply, after) ∧
          CallReport size.toNat past call before reply after := by
  obtain ⟨replies, final, hCalls, hLength, -⟩ := (new size).calls_eq sequence
  obtain ⟨hSize, hBytes⟩ := bytes_of_calls hCalls
  refine ⟨replies, final, hCalls, hLength, ?_, hBytes, ?_⟩
  · apply UInt64.toNat_inj.mp
    rw [toNat_len, hSize]
  · rintro past call later rfl
    obtain ⟨earlier, before, rest, last, hPast, hEarlier, hAll⟩ :=
      (new size).calls_middle past later call
    rw [hCalls] at hAll
    cases hAll
    obtain ⟨hBefore, hPastBytes⟩ := bytes_of_calls hPast
    refine ⟨before, before.reply call, before.after call, ?_, ?_, before.call_eq call,
      callReport hBefore hPastBytes call⟩
    · rw [← hEarlier, List.take_left]
      exact hPast
    · rw [← hEarlier, List.getElem?_append_right (Nat.le_refl _), Nat.sub_self]
      rfl

end Memory

end Simulator
