import Ns3.Network.BufferSharing

/-!
# Copy-on-write isolation

Buffers made from each other by copies, assignments and fragments behave as lists of bytes, each its own,
through every order of calls.
-/

namespace Ns3

open Lib

namespace Buffer

theorem Allocator.lookup_tally (heap : Store ℕ Data) : heap.lookup (Store.tally (fun a _ => a) heap + 1) = none := by
  rw [Option.eq_none_iff_forall_ne_some]
  intro d hd
  have hle := Store.le_tally (f := fun a _ => a) hd
  omega

/-- An allocator that computes an address no block has, with zeros in its blocks. -/
def Allocator.ascending : Allocator where
  address heap := Store.tally (fun a _ => a) heap + 1
  fresh := Allocator.lookup_tally
  garbage _ _ := 0

/-- `AddAtStart` has room: it stays in the block, or the sizes are numbers of `uint32_t`. -/
def StartFits (b : Buffer) (d : Data) (n : ℕ) : Prop :=
  b.StartsInPlace d n ∨ b.getSize + n < 2 ^ 32 ∧ b.getInternalSize + n + sizeofData ≤ 2 ^ 32
deriving Decidable

/-- `AddAtEnd` has room: the end of the buffer, in its block or in a new one, is a number of `uint32_t`. -/
def EndFits (b : Buffer) (d : Data) (n : ℕ) : Prop :=
  if b.EndsInPlace d n then b.stop + n < 2 ^ 32
  else b.getSize + n < 2 ^ 32 ∧ b.getInternalSize + n + sizeofData ≤ 2 ^ 32
deriving Decidable

theorem Allocator.create_eq (alloc : Allocator) (heap : Store ℕ Data) (size : ℕ)
    (h : size + sizeofData ≤ 2 ^ 32) :
    ∃ d, alloc.create heap size = some d ∧ d.count = 1 ∧ d.size = max size 1 := by
  have hlt : (if size = 0 then 1 else size) - 1 + sizeofData < 2 ^ 32 := by
    rw [sizeofData] at h ⊢
    split_ifs <;> omega
  refine ⟨_, by rw [create]; exact if_pos hlt, rfl, ?_⟩
  rw [Data.size, List.length_map, List.length_range]
  split_ifs <;> omega

theorem Data.size_write {d d' : Data} {p : ℕ} {bytes : List UInt8} (h : d.write p bytes = some d') :
    d'.size = d.size := by
  rw [Data.write] at h
  split_ifs at h with hroom
  cases h
  exact length_overwrite hroom

theorem add32_sub32 {a s n : ℕ} (hs : s ≤ a) (ha : a < 2 ^ 32) (hn : n < 2 ^ 32) (hlt : a - s + n < 2 ^ 32) :
    add32 a (sub32 n s) = a - s + n := by
  rw [add32, sub32]
  split_ifs <;> omega

theorem slice_copied {l l' : List UInt8} {p q x z : ℕ} (h : slice l' p (x + z) = slice l q (x + z)) :
    slice l' p x = slice l q x ∧ slice l' (p + x) z = slice l (q + x) z := by
  have ht := congrArg (List.take x) h
  have hd := congrArg (List.drop x) h
  rw [take_slice, take_slice, Nat.min_eq_left (Nat.le_add_right x z)] at ht
  rw [drop_slice, drop_slice, Nat.add_sub_cancel_left] at hd
  exact ⟨ht, hd⟩

/-- What a buffer has in its block is copied to the offset `p` of a new one. -/
theorem InBounds.copied {b : Buffer} {d : Data} (hin : b.InBounds d) (alloc : Allocator) (heap : Store ℕ Data)
    {x y z p size : ℕ} (hsized : b.Sized x y z) (hp : p + (x + z) ≤ size) (hsize : size + sizeofData ≤ 2 ^ 32) :
    ∃ new bytes new', alloc.create heap size = some new ∧ d.read b.start (x + z) = some bytes ∧
      new.write p bytes = some new' ∧ new'.count = 1 ∧ size ≤ new'.size ∧
      slice new'.data p x = slice d.data b.start x ∧
      slice new'.data (p + x) z = slice d.data (b.start + x) z := by
  have hl := hin.le_length hsized
  obtain ⟨new, hnew, hone, hnewSize⟩ := alloc.create_eq heap size hsize
  have hlen : (slice d.data b.start (x + z)).length = x + z := length_slice (by omega)
  have hroom : p + (slice d.data b.start (x + z)).length ≤ new.size := by omega
  have hcopied : slice (overwrite new.data p (slice d.data b.start (x + z))) p (x + z) =
      slice d.data b.start (x + z) := by
    have hself := slice_overwrite (l := new.data) (p := p) (x := slice d.data b.start (x + z))
      (Nat.le_of_add_right_le hroom)
    rwa [hlen] at hself
  refine ⟨new, slice d.data b.start (x + z), { new with data := overwrite new.data p (slice d.data b.start (x + z)) },
    hnew, if_pos (by rw [Data.size]; omega), if_pos hroom, hone, ?_, slice_copied hcopied⟩
  have hover : (overwrite new.data p (slice d.data b.start (x + z))).length = new.size := length_overwrite hroom
  rw [Data.size, hover]
  omega

theorem Sized.getInternalSize_eq {b : Buffer} {x y z : ℕ} (hsized : b.Sized x y z) (ho : b.Ordered) :
    b.getInternalSize = x + z := by
  obtain ⟨e₁, e₂, e₃⟩ := hsized
  rw [ho.getInternalSize_eq]
  omega

/-- The offsets of a buffer whose bytes were copied to the offset `p`. -/
theorem Sized.shift_eq {b : Buffer} {x y z p : ℕ} (hsized : b.Sized x y z) (ho : b.Ordered)
    (hlt : p + x + y + z < 2 ^ 32) :
    b.shift (sub32 p b.start) =
      { b with start := p, zeroAreaStart := p + x, zeroAreaEnd := p + x + y, stop := p + x + y + z } := by
  obtain ⟨e₁, e₂, e₃⟩ := hsized
  have hstop := ho.stop_lt
  rw [shift, add32_sub32 le_rfl (by omega) (by omega) (by omega),
    add32_sub32 (by omega) (by omega) (by omega) (by omega),
    add32_sub32 (by omega) (by omega) (by omega) (by omega),
    add32_sub32 (by omega) hstop (by omega) (by omega)]
  congr 1 <;> omega

namespace Memory

variable {m m' : Memory} {this : ℕ} {b : Buffer} {d : Data} {out : List UInt8} {n : ℕ}

/-! ### Buffers that do not grow -/

section

variable (h : m.Sound)
include h

theorem Sound.initializeBuffer (alloc : Allocator) (hthis : m.buffers.lookup this = none)
    (zeroSize : ℕ) (hlt : min 1 m.recommendedStart + zeroSize < 2 ^ 32) :
    ∃ m' b, m.initializeBuffer alloc this zeroSize = some m' ∧ m'.buffers.lookup this = some b ∧
      b.start ≤ 1 ∧ m.Becomes m' this (some (List.replicate zeroSize 0)) := by
  obtain ⟨d, hd, hcount, hsize⟩ := alloc.create_eq m.heap 0 (by rw [sizeofData]; omega)
  have hone : d.size = 1 := hsize.trans (by omega)
  have hadd := add32_of_lt hlt
  let start := min 1 m.recommendedStart
  let b : Buffer := ⟨alloc.address m.heap, start, start, start + zeroSize, start, start + zeroSize⟩
  let d' : Data := { d with dirtyStart := start, dirtyEnd := start + zeroSize }
  have hb : b.Sized 0 zeroSize 0 := ⟨rfl, rfl, rfl⟩
  have hcov : d'.Covers zeroSize b := by
    refine ⟨hb.ordered hlt, le_rfl, ?_, ?_⟩ <;> dsimp only [b, d'] <;> omega
  have hmake := h.make (d := d') hthis (alloc.fresh m.heap) hcount
    (show start + zeroSize ≤ d.size + zeroSize by omega) hcov m.recommendedStart
  refine ⟨⟨m.buffers.insert this b, m.heap.insert b.data d', m.recommendedStart⟩, b, ?_,
    AList.lookup_insert _, min_le_left _ _, ?_⟩
  · simp only [Memory.initializeBuffer, hd, hone, hadd, Option.bind_eq_bind, Option.bind_some]
    rfl
  · rw [hb.content_eq] at hmake
    simpa using hmake

theorem Sound.copy (hthis : m.buffers.lookup this = none) {o : ℕ}
    (ho : m.buffers.lookup o = some b) (hd : m.heap.lookup b.data = some d) (hlt : d.count + 1 < 2 ^ 32) :
    ∃ m', m.copy this o = some m' ∧
      m'.buffers.lookup this = some { b with maxZeroAreaStart := b.zeroAreaStart } ∧
      m.Becomes m' this (m.bytes o) := by
  obtain ⟨heap, hret, hbec⟩ := h.acquire (b := { b with maxZeroAreaStart := b.zeroAreaStart }) hthis ho hd hlt
    rfl rfl rfl rfl rfl m.recommendedStart
  refine ⟨_, ?_, AList.lookup_insert _, hbec⟩
  simp only [Memory.copy, ho, hret, Option.bind_eq_bind, Option.bind_some]

theorem Sound.destroy (hb : m.buffers.lookup this = some b) :
    ∃ m', m.destroy this = some m' ∧ m.Becomes m' this none := by
  obtain ⟨heap, hrel, -, hbec⟩ := h.drop hb (max m.recommendedStart b.maxZeroAreaStart)
  refine ⟨_, ?_, hbec⟩
  simp only [Memory.destroy, hb, hrel, Option.bind_eq_bind, Option.bind_some]

/-- A buffer changes, and its block is as it was. -/
theorem Sound.modify (hb : m.buffers.lookup this = some b) (hd : m.heap.lookup b.data = some d)
    {f : Buffer → Buffer} (hdata : (f b).data = b.data) (hcov : ∀ z, d.Covers z b → d.Covers z (f b)) :
    ∃ m', m.modify this f = some m' ∧ m'.buffers.lookup this = some (f b) ∧
      m.Becomes m' this (some ((f b).content d.data)) := by
  obtain ⟨-, -, -, z, hz, hcov'⟩ := h.block _ d hd
  refine ⟨{ m with buffers := m.buffers.insert this (f b) },
    by simp only [Memory.modify, hb, Option.bind_eq_bind, Option.bind_some],
    AList.lookup_insert _, h.replace hd hdata rfl hz (hcov z (hcov' this b hb rfl))
      (fun k c _ hc hcb => ⟨hcov' k c hc hcb, rfl⟩) (AList.lookup_insert _)
      (fun k hk => AList.lookup_insert_ne hk) (fun a => ?_) fun a => ?_⟩
  · have hholders : Store.holders Buffer.data (m.buffers.insert this (f b)) a + (if b.data = a then 1 else 0) =
        Store.holders Buffer.data m.buffers a + (if (f b).data = a then 1 else 0) :=
      Store.holders_insert hb (f b) a
    rw [hdata] at hholders
    exact Nat.add_right_cancel hholders
  · split_ifs with ha
    · rw [ha, hd]
    · rfl

theorem Sound.removeAtStart (hb : m.buffers.lookup this = some b) (hbytes : m.bytes this = some out)
    (hn : b.start + n < 2 ^ 32) :
    ∃ m', m.removeAtStart this n = some m' ∧ m'.buffers.lookup this = some (b.removeAtStart n) ∧
      m.Becomes m' this (some (out.drop n)) := by
  obtain ⟨d, hd, hin, hcontent⟩ := h.exists_block hb
  obtain rfl := Option.some.inj (hcontent.symm.trans hbytes)
  rw [← hin.content_removeAtStart hn]
  exact h.modify hb hd (data_removeAtStart b n) fun z hz => hz.removeAtStart hn

theorem Sound.removeAtEnd (hb : m.buffers.lookup this = some b) (hbytes : m.bytes this = some out)
    (n : ℕ) :
    ∃ m', m.removeAtEnd this n = some m' ∧ m'.buffers.lookup this = some (b.removeAtEnd n) ∧
      m.Becomes m' this (some (out.take (out.length - n))) := by
  obtain ⟨d, hd, hin, hcontent⟩ := h.exists_block hb
  obtain rfl := Option.some.inj (hcontent.symm.trans hbytes)
  rw [← hin.content_removeAtEnd n]
  exact h.modify hb hd (data_removeAtEnd b n) fun z hz => hz.removeAtEnd n

theorem Sound.assign {o : ℕ} {ob : Buffer} (hb : m.buffers.lookup this = some b)
    (ho : m.buffers.lookup o = some ob) (hd : m.heap.lookup ob.data = some d)
    (hlt : b.data ≠ ob.data → d.count + 1 < 2 ^ 32) :
    ∃ m', m.assign this o = some m' ∧ m.Becomes m' this (m.bytes o) := by
  obtain ⟨-, -, -, z, hz, hcov⟩ := h.block _ d hd
  have hbytes := bytes_eq_content ho hd (hcov o ob ho rfl).toOrdered
  by_cases hdata : b.data = ob.data
  · refine ⟨⟨m.buffers.insert this ob, m.heap, max m.recommendedStart b.maxZeroAreaStart⟩, ?_, ?_⟩
    · simp only [Memory.assign, hb, ho, hdata, ne_eq, not_true, if_false, Option.bind_eq_bind, Option.bind_some]
    rw [hbytes]
    refine h.replace (hdata ▸ hd) hdata.symm rfl hz (hcov o ob ho rfl)
      (fun k c _ hc hcb => ⟨hcov k c hc (hcb.trans hdata), rfl⟩) (AList.lookup_insert _)
      (fun k hk => AList.lookup_insert_ne hk) (fun a => ?_) fun a => ?_
    · have hholders : Store.holders Buffer.data (m.buffers.insert this ob) a + (if b.data = a then 1 else 0) =
          Store.holders Buffer.data m.buffers a + (if ob.data = a then 1 else 0) :=
        Store.holders_insert hb ob a
      rw [hdata] at hholders
      exact Nat.add_right_cancel hholders
    · split_ifs with ha
      · rw [ha, hdata, hd]
      · rfl
  · -- the buffer leaves its block, and joins the other
    obtain ⟨heap, hrel, -, hdrop⟩ := h.drop hb (max m.recommendedStart b.maxZeroAreaStart)
    have hne : o ≠ this := by
      rintro rfl
      exact hdata (by rw [Option.some.inj (hb.symm.trans ho)])
    have hd' : heap.lookup ob.data = some d := by
      have hlookup := release_lookup_ne hrel (Ne.symm hdata)
      rw [hlookup, hd]
    obtain ⟨heap', hret, hbec⟩ := hdrop.sound.acquire (b := ob) (AList.lookup_erase this _)
      ((hdrop.buffers_eq o hne).trans ho) hd' (hlt hdata) rfl rfl rfl rfl rfl
      (max m.recommendedStart b.maxZeroAreaStart)
    dsimp only at hbec hret
    rw [Store.insert_erase, hdrop.bytes_eq o hne] at hbec
    refine ⟨_, ?_, hdrop.trans hbec⟩
    simp only [Memory.assign, hb, ho, hdata, hrel, hret, ne_eq, not_false_eq_true, if_true, Option.bind_eq_bind,
      Option.bind_some]

/-- A fragment is a part of the buffer, as long as it lies in it. -/
theorem Sound.createFragment {tmp s l : ℕ} (htmp : m.buffers.lookup tmp = none)
    (hb : m.buffers.lookup this = some b) (hd : m.heap.lookup b.data = some d) (hbytes : m.bytes this = some out)
    (hlt : d.count + 1 < 2 ^ 32) (hs : b.start + s < 2 ^ 32) (hl : s + l ≤ out.length ∨ out.length ≤ s) :
    ∃ m', m.createFragment tmp this s l = some m' ∧ m.Becomes m' tmp (some ((out.drop s).take l)) := by
  have hne : this ≠ tmp := by
    rintro rfl
    rw [htmp] at hb
    cases hb
  obtain ⟨d₀, hd₀, hin, hcontent⟩ := h.exists_block hb
  obtain rfl := Option.some.inj (hd.symm.trans hd₀)
  have hsize : b.getSize = out.length := by
    obtain ⟨x, y, z, hsized⟩ := hin.exists_sized
    rw [hin.getSize_eq, ← Option.some.inj (hcontent.symm.trans hbytes),
      hsized.length_content (hin.le_length hsized), hsized.stop_eq]
    omega
  obtain ⟨m₁, hm₁, hb₁, hbec₁⟩ := h.copy htmp hb hd hlt
  obtain ⟨m₂, hm₂, hb₂, hbec₂⟩ := hbec₁.sound.removeAtStart hb₁ (hbec₁.bytes_this.trans hbytes) hs
  obtain ⟨m₃, hm₃, -, hbec₃⟩ := hbec₂.sound.removeAtEnd hb₂ hbec₂.bytes_this (sub32 b.getSize (add32 s l))
  have hthis : m₂.buffers.lookup this = some b := by
    rw [hbec₂.buffers_eq this hne, hbec₁.buffers_eq this hne, hb]
  refine ⟨m₃, ?_, ?_⟩
  · simp only [Memory.createFragment, hm₁, hm₂, hthis, hm₃, Option.bind_eq_bind, Option.bind_some]
  have hout : (out.drop s).take ((out.drop s).length - sub32 b.getSize (add32 s l)) = (out.drop s).take l := by
    rcases hl with hl | hl
    · have hlen : out.length < 2 ^ 32 := by
        have := hin.getSize_eq
        have := hin.stop_lt
        omega
      rw [hsize, add32_of_lt (by omega), sub32_of_le hl, List.length_drop]
      congr 1
      omega
    · rw [List.drop_eq_nil_of_le hl, List.take_nil, List.take_nil]
  rw [hout] at hbec₃
  exact (hbec₁.trans hbec₂).trans hbec₃

end

/-! ### Bytes that a buffer has reserved -/

/-- The first `n` bytes of the buffer lie in front of its zero area, and no other buffer has them. -/
def OwnsStart (m : Memory) (this n : ℕ) : Prop :=
  ∃ b, m.buffers.lookup this = some b ∧ b.start + n ≤ b.zeroAreaStart ∧
    ∀ k c, k ≠ this → m.buffers.lookup k = some c → c.data = b.data → b.start + n ≤ c.start

/-- The last `n` bytes of the buffer lie behind its zero area, and no other buffer has them. -/
def OwnsEnd (m : Memory) (this n : ℕ) : Prop :=
  ∃ b, m.buffers.lookup this = some b ∧ b.zeroAreaEnd + n ≤ b.stop ∧
    ∀ k c, k ≠ this → m.buffers.lookup k = some c → c.data = b.data →
      c.stop - (c.zeroAreaEnd - c.zeroAreaStart) + n ≤ b.stop - (b.zeroAreaEnd - b.zeroAreaStart)

variable {bytes : List UInt8}

section

variable (h : m.Sound)
include h

/-- The bytes at the start of a buffer are written where they were reserved. -/
theorem Sound.writeAtStart (howns : m.OwnsStart this bytes.length) (hbytes : m.bytes this = some out) :
    ∃ m', m.writeAtStart this bytes = some m' ∧ m.Becomes m' this (some (bytes ++ out.drop bytes.length)) ∧
      m'.buffers = m.buffers := by
  obtain ⟨b, hb, hroom, hother⟩ := howns
  obtain ⟨d, hd⟩ := h.held this b hb
  obtain ⟨x, y, z, zs, hin, hsized, rfl, hz, hcov⟩ := h.exists_sized hb hd hbytes
  have hl := hin.le_length hsized
  have hx : bytes.length ≤ x := by
    have := hsized.zeroAreaStart_eq
    omega
  let d' : Data := { d with data := overwrite d.data b.start bytes }
  have hlen : d'.size = d.size := length_overwrite (by omega)
  have hwrite : d.write b.start bytes = some d' := if_pos (by rw [Data.size]; omega)
  have hoffset : b.offset b.start = b.start := if_pos hin.start_le
  have hnew : b.content d'.data = bytes ++ (b.content d.data).drop bytes.length := by
    have hself : slice d'.data b.start bytes.length = bytes := slice_overwrite (by omega)
    obtain ⟨x', rfl⟩ := Nat.exists_eq_add_of_le hx
    rw [hsized.content_eq, hsized.drop_content hl, slice_add, hself, List.append_assoc,
      slice_overwrite_of_ge (by omega) (by omega), slice_overwrite_of_ge (by omega) (by omega)]
    have e₁ : bytes.length - (bytes.length + x') = 0 := by omega
    have e₂ : bytes.length - (bytes.length + x' + y) = 0 := by omega
    simp only [e₁, e₂, Nat.sub_zero, Nat.add_zero, Nat.add_sub_cancel_left]
  refine ⟨{ m with heap := m.heap.insert b.data d' }, ?_, ?_, rfl⟩
  · simp only [Memory.writeAtStart, Memory.write, view_eq hb hd, hoffset, hwrite, Option.bind_eq_bind,
      Option.bind_some]
  rw [← hnew]
  refine h.replace hd rfl rfl (hz.trans_eq (by rw [hlen])) ((hcov this b hb rfl).congr le_rfl le_rfl rfl rfl rfl rfl)
    (fun k c hk hc hcb => ⟨(hcov k c hc hcb).congr le_rfl le_rfl rfl rfl rfl rfl, ?_⟩) hb (fun k _ => rfl)
    (fun a => rfl) (Store.lookup_insert_eq_ite _ _ _)
  -- the other buffers start behind the bytes that are written
  have hstart := hother k c hk hc hcb
  have hzero := (hcov k c hc hcb).start_le
  rw [content, content, slice_overwrite_of_ge (by omega) (by omega), slice_overwrite_of_ge (by omega) (by omega)]

/-- Where the last bytes of a buffer are, which were reserved: they can be overwritten there. -/
theorem Sound.overwriteEnd (howns : m.OwnsEnd this bytes.length) (hbytes : m.bytes this = some out) :
    ∃ b d p, m.buffers.lookup this = some b ∧ m.heap.lookup b.data = some d ∧
      b.offset (sub32 b.stop bytes.length) = p ∧ p + bytes.length ≤ d.size ∧
      p + bytes.length + (b.zeroAreaEnd - b.zeroAreaStart) = b.stop ∧
      ∀ heap, (∀ a, heap.lookup a = if a = b.data then some { d with data := overwrite d.data p bytes }
        else m.heap.lookup a) →
        m.Becomes { m with heap := heap } this (some (out.take (out.length - bytes.length) ++ bytes)) := by
  obtain ⟨b, hb, hroom, hother⟩ := howns
  obtain ⟨d, hd⟩ := h.held this b hb
  obtain ⟨x, y, z, zs, hin, hsized, rfl, hz, hcov⟩ := h.exists_sized hb hd hbytes
  have hl := hin.le_length hsized
  obtain ⟨z', rfl⟩ : ∃ z', z = z' + bytes.length := by
    have := hsized.stop_eq
    have := hsized.zeroAreaEnd_eq
    exact ⟨z - bytes.length, by omega⟩
  have hy : sub32 b.zeroAreaEnd b.zeroAreaStart = y := by
    rw [hin.zeroSize_eq, hsized.zeroAreaEnd_eq, hsized.zeroAreaStart_eq]
    omega
  have hpos : b.offset (sub32 b.stop bytes.length) = b.start + x + z' := by
    rw [sub32_of_le (by omega), offset, hy, hsized.stop_eq, hsized.zeroAreaStart_eq]
    split_ifs with hle
    · omega
    · rw [sub32_of_le (by omega)]
      omega
  have hend : b.start + x + z' + bytes.length + (b.zeroAreaEnd - b.zeroAreaStart) = b.stop := by
    obtain ⟨e₁, e₂, e₃⟩ := hsized
    omega
  let d' : Data := { d with data := overwrite d.data (b.start + x + z') bytes }
  have hlen : d'.size = d.size := length_overwrite (by omega)
  have hnew : b.content d'.data =
      (b.content d.data).take ((b.content d.data).length - bytes.length) ++ bytes := by
    have hself : slice d'.data (b.start + x + z') bytes.length = bytes := slice_overwrite (by omega)
    rw [hsized.length_content hl, hsized.take_content hl, hsized.content_eq, slice_add, hself,
      slice_overwrite_of_le (by omega) (by omega), slice_overwrite_of_le (by omega) (by omega)]
    have e₁ : min (x + y + (z' + bytes.length) - bytes.length) x = x := by omega
    have e₂ : min (x + y + (z' + bytes.length) - bytes.length - x) y = y := by omega
    have e₃ : min (x + y + (z' + bytes.length) - bytes.length - (x + y)) (z' + bytes.length) = z' := by omega
    simp only [e₁, e₂, e₃, List.append_assoc]
  refine ⟨b, d, _, hb, hd, hpos, by rw [Data.size]; omega, hend, fun heap hheap => ?_⟩
  rw [← hnew]
  refine h.replace hd rfl rfl (hz.trans_eq (by rw [hlen])) ((hcov this b hb rfl).congr le_rfl le_rfl rfl rfl rfl rfl)
    (fun k c hk hc hcb => ⟨(hcov k c hc hcb).congr le_rfl le_rfl rfl rfl rfl rfl, ?_⟩) hb (fun k _ => rfl)
    (fun a => rfl) hheap
  -- the other buffers end before the bytes that are written
  have hend := hother k c hk hc hcb
  obtain ⟨x₁, y₁, z₁, hc₁⟩ := (hcov k c hc hcb).exists_sized
  have hle : c.start + x₁ + z₁ ≤ b.start + x + z' := by
    obtain ⟨f₁, f₂, f₃⟩ := hc₁
    obtain ⟨e₁, e₂, e₃⟩ := hsized
    omega
  rw [hc₁.content_eq, hc₁.content_eq, slice_overwrite_of_le (by omega) (by omega),
    slice_overwrite_of_le (by omega) (by omega)]

/-- The bytes at the end of a buffer are written where they were reserved. -/
theorem Sound.writeAtEnd (howns : m.OwnsEnd this bytes.length) (hbytes : m.bytes this = some out) :
    ∃ m', m.writeAtEnd this bytes = some m' ∧
      m.Becomes m' this (some (out.take (out.length - bytes.length) ++ bytes)) ∧ m'.buffers = m.buffers := by
  obtain ⟨b, d, p, hb, hd, hpos, hroom, -, hbecomes⟩ := h.overwriteEnd howns hbytes
  have hwrite : d.write p bytes = some { d with data := overwrite d.data p bytes } := if_pos hroom
  refine ⟨{ m with heap := m.heap.insert b.data { d with data := overwrite d.data p bytes } }, ?_,
    hbecomes _ (Store.lookup_insert_eq_ite _ _ _), rfl⟩
  simp only [Memory.writeAtEnd, Memory.write, view_eq hb hd, hpos, hwrite, Option.bind_eq_bind, Option.bind_some]

/-! ### Buffers that grow -/

theorem Becomes.alone {b' : Buffer} (hbec : m.Becomes m' this (some out))
    (hfresh : m.heap.lookup b'.data = none) {k : ℕ} {c : Buffer} (hk : k ≠ this)
    (hc : m'.buffers.lookup k = some c) : c.data ≠ b'.data := by
  intro hcb
  obtain ⟨d, hd⟩ := h.held k c ((hbec.buffers_eq k hk).symm.trans hc)
  rw [hcb, hfresh] at hd
  cases hd

/-- `AddAtStart` in the block. -/
theorem Sound.addAtStart_inPlace (alloc : Allocator) (hb : m.buffers.lookup this = some b)
    (hd : m.heap.lookup b.data = some d) (hbytes : m.bytes this = some out) (hplace : b.StartsInPlace d n) :
    ∃ m' g, m.addAtStart alloc this n = some (decide (d.dirtyStart < b.start - n), m') ∧
      m'.buffers.lookup this = some (track { b with start := b.start - n }) ∧ g.length = n ∧
      m.Becomes m' this (some (g ++ out)) ∧ m'.OwnsStart this n := by
  have hcount := (h.block _ d hd).count_eq
  obtain ⟨x, y, z, zs, hin, hsized, rfl, hz, hcov⟩ := h.exists_sized hb hd hbytes
  have hl := hin.le_length hsized
  have hle : n ≤ b.start := hplace.1
  have hsub : sub32 b.start n = b.start - n := sub32_of_le hle
  -- if there are others on the block, this is the buffer that starts first
  have hfirst : ∀ k c, k ≠ this → m.buffers.lookup k = some c → c.data = b.data → b.start ≤ c.start := by
    intro k c hk hc hcb
    have hshared : 1 < d.count := by
      by_contra hone
      exact hk (Store.eq_of_holders_le_one (by omega) hb rfl hc hcb)
    have hstart := (hcov k c hc hcb).dirtyStart_le
    have hnot : ¬ d.dirtyStart < b.start := fun hlt => hplace.2 ⟨hshared, hlt⟩
    omega
  let b' : Buffer := track { b with start := b.start - n }
  let d' : Data := { d with dirtyStart := b.start - n }
  have hsized' : b'.Sized (n + x) y z := by
    obtain ⟨e₁, e₂, e₃⟩ := hsized
    refine ⟨?_, ?_, ?_⟩ <;> dsimp only [b', track] <;> omega
  have hcov' : d'.Covers zs b' := by
    obtain ⟨⟨h₁, h₂, h₃, h₄⟩, h₅, h₆, h₇⟩ := hcov this b hb rfl
    exact ⟨⟨by dsimp only [b', track]; omega, h₂, h₃, h₄⟩, le_rfl, h₆, h₇⟩
  refine ⟨⟨m.buffers.insert this b', m.heap.insert b.data d', m.recommendedStart⟩,
    slice d.data (b.start - n) n, ?_, AList.lookup_insert _, length_slice (by omega), ?_, ?_⟩
  · simp only [Memory.addAtStart, view_eq hb hd, hplace, if_true, hsub, Option.bind_eq_bind, Option.bind_some]
    rfl
  · have hcontent : b'.content d'.data = slice d.data (b.start - n) n ++ b.content d.data := by
      rw [hsized'.content_eq, hsized.content_eq, slice_add, List.append_assoc]
      have e₁ : b'.start + n = b.start := by dsimp only [b', track]; omega
      have e₂ : b'.start + (n + x) = b.start + x := by omega
      rw [e₁, e₂]
      rfl
    rw [← hcontent]
    refine h.putBack hb hd b' d' rfl rfl hz hcov' (fun k c hk hc hcb => ⟨?_, rfl⟩) _
    have hstart := hfirst k c hk hc hcb
    obtain ⟨hord, h₅, h₆, h₇⟩ := hcov k c hc hcb
    exact ⟨hord, by dsimp only [d']; omega, h₆, h₇⟩
  · refine ⟨b', AList.lookup_insert _, ?_, fun k c hk hc hcb => ?_⟩
    · rw [hsized'.zeroAreaStart_eq]
      omega
    · have hstart := hfirst k c hk ((AList.lookup_insert_ne hk).symm.trans hc) hcb
      dsimp only [b', track]
      omega

/-- `AddAtStart` with a new block. -/
theorem Sound.addAtStart_moved (alloc : Allocator) (hb : m.buffers.lookup this = some b)
    (hd : m.heap.lookup b.data = some d) (hbytes : m.bytes this = some out)
    (hplace : ¬ b.StartsInPlace d n) (hsize : b.getSize + n < 2 ^ 32)
    (hisize : b.getInternalSize + n + sizeofData ≤ 2 ^ 32) :
    ∃ m' b' g, m.addAtStart alloc this n = some (true, m') ∧ m'.buffers.lookup this = some b' ∧
      b'.start = 0 ∧ g.length = n ∧ m.Becomes m' this (some (g ++ out)) ∧ m'.OwnsStart this n := by
  obtain ⟨x, y, z, zs, hin, hsized, rfl, hz, hcov⟩ := h.exists_sized hb hd hbytes
  have hint := hsized.getInternalSize_eq hin.toOrdered
  rw [hint] at hisize
  have hlt : n + x + y + z < 2 ^ 32 := by
    rw [hin.getSize_eq, hsized.stop_eq] at hsize
    omega
  obtain ⟨new, bytes, new', hnew, hread, hwrite, hone, hnewSize, hstart, hend⟩ :=
    hin.copied alloc m.heap hsized (Nat.add_comm n _).le hisize
  have hadd : add32 (x + z) n = x + z + n := add32_of_lt (by omega)
  have hzero : sub32 n n = 0 := (sub32_of_le le_rfl).trans (Nat.sub_self n)
  let b' : Buffer := track { b with
    data := alloc.address m.heap
    start := 0
    zeroAreaStart := n + x
    zeroAreaEnd := n + x + y
    stop := n + x + y + z }
  let d' : Data := { new' with dirtyStart := 0, dirtyEnd := n + x + y + z }
  have hsized' : b'.Sized (n + x) y z := ⟨by simp [b', track], by simp [b', track], by simp [b', track]⟩
  have hcov' : d'.Covers y b' := by
    refine ⟨hsized'.ordered ?_, le_rfl, ?_, ?_⟩ <;> dsimp only [b', d', track] <;> omega
  have hfresh : m.heap.lookup b'.data = none := alloc.fresh m.heap
  have hcount : d'.count = 1 := hone
  have hsize' : d'.dirtyEnd ≤ d'.size + y := by
    change n + x + y + z ≤ new'.size + y
    omega
  obtain ⟨heap, hrel, hbec⟩ := h.move hb hfresh hcount hsize' hcov' m.recommendedStart
  have hcontent : b'.content d'.data = slice d'.data 0 n ++ b.content d.data := by
    have hb'start : b'.start = 0 := rfl
    rw [hsized'.content_eq, hsized.content_eq, slice_add, List.append_assoc, hb'start, Nat.zero_add,
      Nat.zero_add, hstart, hend]
  rw [hcontent] at hbec
  refine ⟨_, b', slice d'.data 0 n, ?_, AList.lookup_insert _, rfl, length_slice ?_, hbec, ?_⟩
  · simp only [Memory.addAtStart, view_eq hb hd, hplace, if_false, hint, hadd, hnew, hread, hwrite, hrel,
      hsized.shift_eq hin.toOrdered hlt, hzero, Option.bind_eq_bind, Option.bind_some]
    rfl
  · change 0 + n ≤ new'.size
    omega
  · refine ⟨b', AList.lookup_insert _, ?_, fun k c hk hc hcb => absurd hcb (hbec.alone h hfresh hk hc)⟩
    rw [hsized'.zeroAreaStart_eq]
    omega

/-- `AddAtStart` puts bytes in front of the buffer, which the buffer has to itself. -/
theorem Sound.addAtStart (alloc : Allocator) (hb : m.buffers.lookup this = some b)
    (hd : m.heap.lookup b.data = some d) (hbytes : m.bytes this = some out) (hfits : b.StartFits d n) :
    ∃ dirty m' b' g, m.addAtStart alloc this n = some (dirty, m') ∧ m'.buffers.lookup this = some b' ∧
      b'.start ≤ b.start - n ∧ g.length = n ∧ m.Becomes m' this (some (g ++ out)) ∧ m'.OwnsStart this n := by
  by_cases hplace : b.StartsInPlace d n
  · obtain ⟨m', g, hm', hb', hrest⟩ := h.addAtStart_inPlace alloc hb hd hbytes hplace
    exact ⟨_, m', _, g, hm', hb', le_rfl, hrest⟩
  · obtain ⟨hsize, hisize⟩ := hfits.resolve_left hplace
    obtain ⟨m', b', g, hm', hb', hstart, hrest⟩ := h.addAtStart_moved alloc hb hd hbytes hplace hsize hisize
    exact ⟨_, m', b', g, hm', hb', by omega, hrest⟩

/-- `AddAtEnd` in the block. -/
theorem Sound.addAtEnd_inPlace (alloc : Allocator) (hb : m.buffers.lookup this = some b)
    (hd : m.heap.lookup b.data = some d) (hbytes : m.bytes this = some out) (hplace : b.EndsInPlace d n)
    (hlt : b.stop + n < 2 ^ 32) :
    ∃ m' g, m.addAtEnd alloc this n = some (false, m') ∧
      m'.buffers.lookup this = some (track { b with stop := b.stop + n }) ∧ g.length = n ∧
      m.Becomes m' this (some (out ++ g)) ∧ m'.OwnsEnd this n := by
  have hcount := (h.block _ d hd).count_eq
  obtain ⟨x, y, z, zs, hin, hsized, rfl, hz, hcov⟩ := h.exists_sized hb hd hbytes
  obtain ⟨e₁, e₂, e₃⟩ := id hsized
  have hend : b.getInternalEnd = b.start + x + z := by
    rw [hin.getInternalEnd_eq]
    omega
  have hroom : b.start + x + z + n ≤ d.size := by
    have hle := hplace.1
    rwa [hend, add32_of_lt (by omega)] at hle
  -- if there are others on the block, this is a buffer that ends last, with the largest zero area
  have hlast : ∀ k c, k ≠ this → m.buffers.lookup k = some c → c.data = b.data →
      c.zeroAreaEnd - c.zeroAreaStart ≤ y ∧
        c.stop - (c.zeroAreaEnd - c.zeroAreaStart) ≤ b.start + x + z ∧ d.dirtyEnd = b.stop := by
    intro k c hk hc hcb
    have hshared : 1 < d.count := by
      by_contra hone
      exact hk (Store.eq_of_holders_le_one (by omega) hb rfl hc hcb)
    have hnot : ¬ b.stop < d.dirtyEnd := fun hlt => hplace.2 ⟨hshared, hlt⟩
    obtain ⟨-, -, f₁, f₂⟩ := hcov this b hb rfl
    obtain ⟨-, -, g₁, g₂⟩ := hcov k c hc hcb
    refine ⟨?_, ?_, ?_⟩ <;> omega
  let b' : Buffer := track { b with stop := b.stop + n }
  let d' : Data := { d with dirtyEnd := b.stop + n }
  have hadd : add32 b.stop n = b.stop + n := add32_of_lt hlt
  have hsized' : b'.Sized x y (z + n) := by
    refine ⟨e₁, e₂, ?_⟩
    dsimp only [b', track]
    omega
  have hcov' : d'.Covers y b' := by
    obtain ⟨⟨h₁, h₂, h₃, h₄⟩, h₅, h₆, h₇⟩ := hcov this b hb rfl
    refine ⟨⟨h₁, h₂, ?_, hlt⟩, h₅, ?_, ?_⟩ <;> dsimp only [b', d', track] <;> omega
  have hsize' : d'.dirtyEnd ≤ d'.size + y := by
    change b.stop + n ≤ d.size + y
    omega
  refine ⟨⟨m.buffers.insert this b', m.heap.insert b.data d', m.recommendedStart⟩,
    slice d.data (b.start + x + z) n, ?_, AList.lookup_insert _, length_slice hroom, ?_, ?_⟩
  · simp only [Memory.addAtEnd, view_eq hb hd, hplace, if_true, hadd, lt_irrefl, decide_false, Option.bind_eq_bind,
      Option.bind_some]
    rfl
  · have hcontent : b'.content d'.data = b.content d.data ++ slice d.data (b.start + x + z) n := by
      rw [hsized'.content_eq, hsized.content_eq, slice_add, List.append_assoc, List.append_assoc]
      rfl
    rw [← hcontent]
    refine h.putBack hb hd b' d' rfl rfl hsize' hcov' (fun k c hk hc hcb => ⟨?_, rfl⟩) _
    obtain ⟨hzero, hstop, hdirty⟩ := hlast k c hk hc hcb
    obtain ⟨hord, h₅, h₆, h₇⟩ := hcov k c hc hcb
    refine ⟨hord, h₅, hzero, ?_⟩
    dsimp only [d']
    omega
  · refine ⟨b', AList.lookup_insert _, ?_, fun k c hk hc hcb => ?_⟩
    · rw [hsized'.zeroAreaEnd_eq, hsized'.stop_eq]
      omega
    · obtain ⟨hzero, hstop, -⟩ := hlast k c hk ((AList.lookup_insert_ne hk).symm.trans hc) hcb
      rw [hsized'.zeroAreaStart_eq, hsized'.zeroAreaEnd_eq, hsized'.stop_eq]
      have hb'start : b'.start = b.start := rfl
      omega

end

/-- The buffer on the new block that `AddAtEnd` makes for `n` more bytes. -/
structure Moved (m m' : Memory) (b b' : Buffer) (n : ℕ) : Prop where
  fresh : m.heap.lookup b'.data = none
  /-- It has room for what was in the old one and for the new bytes. -/
  size_eq : ∃ d', m'.heap.lookup b'.data = some d' ∧ d'.size = max (b.getInternalSize + n) 1
  /-- The buffer starts at the beginning. -/
  start_eq : b'.start = 0
  /-- The zero area lies in it where it lay. -/
  zeroAreaStart_eq : b'.zeroAreaStart = b.zeroAreaStart - b.start
  /-- The zero area is as large as it was. -/
  zeroAreaEnd_eq : b'.zeroAreaEnd = b.zeroAreaEnd - b.start
  /-- The buffer ends behind the new bytes. -/
  stop_eq : b'.stop = b.stop - b.start + n

/-- `AddAtEnd` with a new block. -/
theorem Sound.addAtEnd_moved (h : m.Sound) (alloc : Allocator) (hb : m.buffers.lookup this = some b)
    (hd : m.heap.lookup b.data = some d) (hbytes : m.bytes this = some out)
    (hplace : ¬ b.EndsInPlace d n) (hsize : b.getSize + n < 2 ^ 32)
    (hisize : b.getInternalSize + n + sizeofData ≤ 2 ^ 32) :
    ∃ m' b' g, m.addAtEnd alloc this n = some (true, m') ∧ m'.buffers.lookup this = some b' ∧
      g.length = n ∧ m.Becomes m' this (some (out ++ g)) ∧ m'.OwnsEnd this n ∧ Moved m m' b b' n := by
  obtain ⟨x, y, z, zs, hin, hsized, rfl, hz, hcov⟩ := h.exists_sized hb hd hbytes
  have hint := hsized.getInternalSize_eq hin.toOrdered
  rw [hint] at hisize
  have hlt : 0 + x + y + z + n < 2 ^ 32 := by
    rw [hin.getSize_eq, hsized.stop_eq] at hsize
    omega
  obtain ⟨new, bytes, new', hnew, hread, hwrite, hone, hnewSize, hstart, hend⟩ :=
    hin.copied alloc m.heap (p := 0) hsized (by omega) hisize
  have hadd : add32 (x + z) n = x + z + n := add32_of_lt (by omega)
  have hstop : add32 (0 + x + y + z) n = 0 + x + y + z + n := add32_of_lt hlt
  let b' : Buffer := track { b with
    data := alloc.address m.heap
    start := 0
    zeroAreaStart := 0 + x
    zeroAreaEnd := 0 + x + y
    stop := 0 + x + y + z + n }
  let d' : Data := { new' with dirtyStart := 0, dirtyEnd := 0 + x + y + z + n }
  have hsized' : b'.Sized x y (z + n) := ⟨rfl, rfl, by dsimp only [b', track]; omega⟩
  have hcov' : d'.Covers y b' := by
    refine ⟨hsized'.ordered ?_, le_rfl, ?_, ?_⟩ <;> dsimp only [b', d', track] <;> omega
  have hfresh : m.heap.lookup b'.data = none := alloc.fresh m.heap
  have hcount : d'.count = 1 := hone
  have hsize' : d'.dirtyEnd ≤ d'.size + y := by
    change 0 + x + y + z + n ≤ new'.size + y
    omega
  obtain ⟨heap, hrel, hbec⟩ := h.move hb hfresh hcount hsize' hcov' m.recommendedStart
  have hcontent : b'.content d'.data = b.content d.data ++ slice d'.data (0 + x + z) n := by
    have hb'start : b'.start = 0 := rfl
    rw [hsized'.content_eq, hsized.content_eq, slice_add, List.append_assoc, List.append_assoc, hb'start, hstart,
      hend]
  rw [hcontent] at hbec
  have hnewSize' : new'.size = max (x + z + n) 1 := by
    obtain ⟨new₀, hnew₀, -, hsize₀⟩ := alloc.create_eq m.heap (x + z + n) hisize
    obtain rfl := Option.some.inj (hnew.symm.trans hnew₀)
    rw [Data.size_write hwrite, hsize₀]
  refine ⟨_, b', slice d'.data (0 + x + z) n, ?_, AList.lookup_insert _, length_slice ?_, hbec, ?_,
    ⟨hfresh, ⟨d', AList.lookup_insert _, by rw [hint]; exact hnewSize'⟩, rfl, ?_, ?_, ?_⟩⟩
  · simp only [Memory.addAtEnd, view_eq hb hd, hplace, if_false, hint, hadd, hnew, hread, hwrite, hrel,
      hsized.shift_eq hin.toOrdered (Nat.lt_of_le_of_lt (Nat.le_add_right _ n) hlt), hstop, Option.bind_eq_bind,
      Option.bind_some]
    rfl
  · change 0 + x + z + n ≤ new'.size
    omega
  · refine ⟨b', AList.lookup_insert _, ?_, fun k c hk hc hcb => absurd hcb (hbec.alone h hfresh hk hc)⟩
    rw [hsized'.zeroAreaEnd_eq, hsized'.stop_eq]
    omega
  · rw [hsized.zeroAreaStart_eq]
    exact (Nat.zero_add x).trans (Nat.add_sub_cancel_left b.start x).symm
  · rw [hsized.zeroAreaEnd_eq]
    change 0 + x + y = _
    omega
  · rw [hsized.stop_eq]
    change 0 + x + y + z + n = _
    omega

/-- `AddAtEnd` puts bytes behind the buffer, which the buffer has to itself. -/
theorem Sound.addAtEnd (h : m.Sound) (alloc : Allocator) (hb : m.buffers.lookup this = some b)
    (hd : m.heap.lookup b.data = some d) (hbytes : m.bytes this = some out) (hfits : b.EndFits d n) :
    ∃ dirty m' g, m.addAtEnd alloc this n = some (dirty, m') ∧ g.length = n ∧
      m.Becomes m' this (some (out ++ g)) ∧ m'.OwnsEnd this n := by
  rw [EndFits] at hfits
  split_ifs at hfits with hplace
  · obtain ⟨m', g, hm', -, hrest⟩ := h.addAtEnd_inPlace alloc hb hd hbytes hplace hfits
    exact ⟨_, m', g, hm', hrest⟩
  · obtain ⟨m', b', g, hm', -, hg, hbec, howns, -⟩ := h.addAtEnd_moved alloc hb hd hbytes hplace hfits.1 hfits.2
    exact ⟨_, m', g, hm', hg, hbec, howns⟩

/-! ### A block for one buffer -/

/-- A buffer without a zero area that has its block to itself, near the beginning of it. -/
structure Own (m : Memory) (this : ℕ) (b : Buffer) : Prop where
  lookup_eq : m.buffers.lookup this = some b
  zeroArea : b.zeroAreaEnd = b.zeroAreaStart
  /-- It begins with the block, or behind the first byte. -/
  start_le : b.start ≤ 1
  /-- No other buffer is on the block. -/
  alone : ∀ k c, k ≠ this → m.buffers.lookup k = some c → c.data ≠ b.data

theorem Own.insert {b' : Buffer} (hown : m.Own this b) (hdata : b'.data = b.data)
    (hzero : b'.zeroAreaEnd = b'.zeroAreaStart) (hstart : b'.start ≤ 1) {heap : Store ℕ Data} {r : ℕ} :
    Own ⟨m.buffers.insert this b', heap, r⟩ this b' where
  lookup_eq := AList.lookup_insert _
  zeroArea := hzero
  start_le := hstart
  alone k c hk hc := by
    rw [hdata]
    exact hown.alone k c hk ((AList.lookup_insert_ne hk).symm.trans hc)

theorem Sound.own_fresh (h : m.Sound) {b' : Buffer} (hfresh : m.heap.lookup b'.data = none)
    (hzero : b'.zeroAreaEnd = b'.zeroAreaStart) (hstart : b'.start ≤ 1) {heap : Store ℕ Data} {r : ℕ} :
    Own ⟨m.buffers.insert this b', heap, r⟩ this b' where
  lookup_eq := AList.lookup_insert _
  zeroArea := hzero
  start_le := hstart
  alone k c hk hc hcb := by
    obtain ⟨d, hd⟩ := h.held k c ((AList.lookup_insert_ne hk).symm.trans hc)
    rw [hcb, hfresh] at hd
    cases hd

variable {alloc : Allocator}

theorem Own.addAtStart (hown : m.Own this b) (h : m.Sound) {dirty : Bool} (hn : n < 2 ^ 32)
    (hadd : m.addAtStart alloc this n = some (dirty, m')) : ∃ b', m'.Own this b' := by
  obtain ⟨d, hd⟩ := h.held this b hown.lookup_eq
  rw [Memory.addAtStart, view_eq hown.lookup_eq hd] at hadd
  simp only [Option.bind_eq_bind, Option.bind_some] at hadd
  split_ifs at hadd with hplace
  · obtain ⟨-, rfl⟩ := Prod.mk.inj (Option.some.inj hadd)
    refine ⟨_, hown.insert ?_ ?_ ?_⟩
    · rfl
    · exact hown.zeroArea
    have hstart := hown.start_le
    have hsub : sub32 b.start n = b.start - n := sub32_of_le hplace.1
    change sub32 b.start n ≤ 1
    omega
  · simp only [Option.bind_eq_some_iff, Option.some.injEq, Prod.mk.injEq] at hadd
    obtain ⟨new, -, bytes, -, new', -, heap, -, -, rfl⟩ := hadd
    refine ⟨_, h.own_fresh (alloc.fresh m.heap) (congrArg (add32 · (sub32 n b.start)) hown.zeroArea) ?_⟩
    have hstart := hown.start_le
    have hshift : add32 b.start (sub32 n b.start) = n := by
      rw [add32_sub32 (Nat.le_refl _) (by omega) hn (by omega)]
      omega
    change sub32 (add32 b.start (sub32 n b.start)) n ≤ 1
    rw [hshift, sub32_of_le (Nat.le_refl n)]
    omega

theorem Own.addAtEnd (hown : m.Own this b) (h : m.Sound) {dirty : Bool}
    (hadd : m.addAtEnd alloc this n = some (dirty, m')) : ∃ b', m'.Own this b' := by
  obtain ⟨d, hd⟩ := h.held this b hown.lookup_eq
  rw [Memory.addAtEnd, view_eq hown.lookup_eq hd] at hadd
  simp only [Option.bind_eq_bind, Option.bind_some] at hadd
  split_ifs at hadd with hplace
  · obtain ⟨-, rfl⟩ := Prod.mk.inj (Option.some.inj hadd)
    refine ⟨_, hown.insert ?_ ?_ ?_⟩
    · rfl
    · exact hown.zeroArea
    · exact hown.start_le
  · simp only [Option.bind_eq_some_iff, Option.some.injEq, Prod.mk.injEq] at hadd
    obtain ⟨new, -, bytes, -, new', -, heap, -, -, rfl⟩ := hadd
    refine ⟨_, h.own_fresh (alloc.fresh m.heap) (congrArg (add32 · (sub32 0 b.start)) hown.zeroArea) ?_⟩
    have hstart := hown.start_le
    have hshift : add32 b.start (sub32 0 b.start) = 0 := by
      rw [add32_sub32 (Nat.le_refl _) (by omega) (by omega) (by omega)]
      omega
    change add32 b.start (sub32 0 b.start) ≤ 1
    omega

theorem Own.of_buffers_eq (hown : m.Own this b) (hbuffers : m'.buffers = m.buffers) : m'.Own this b :=
  ⟨hbuffers ▸ hown.lookup_eq, hown.zeroArea, hown.start_le, hbuffers ▸ hown.alone⟩

theorem Sound.own_initializeBuffer (h : m.Sound) (hmake : m.initializeBuffer alloc this 0 = some m') :
    ∃ b, m'.Own this b := by
  obtain ⟨d, hd, -, hsize⟩ := alloc.create_eq m.heap 0 (by rw [sizeofData]; omega)
  rw [Memory.initializeBuffer, hd] at hmake
  simp only [Option.bind_eq_bind, Option.bind_some, Option.some.injEq] at hmake
  obtain rfl := hmake
  have hstart : min d.size m.recommendedStart ≤ 1 := by omega
  exact ⟨_, h.own_fresh (alloc.fresh m.heap) (add32_of_lt (by omega)) hstart⟩

theorem buffers_write {current : Buffer → ℕ} (h : m.write this current bytes = some m') : m'.buffers = m.buffers := by
  simp only [Memory.write, Option.bind_eq_bind, Option.bind_eq_some_iff, Option.some.injEq] at h
  obtain ⟨_, -, _, -, rfl⟩ := h
  rfl

/-! ### Full copies -/

theorem Sound.length_bytes (h : m.Sound) (hb : m.buffers.lookup this = some b) (hbytes : m.bytes this = some out) :
    out.length = b.getSize ∧ b.getInternalSize ≤ out.length ∧ b.start + out.length = b.stop := by
  obtain ⟨d, -, hin, hcontent⟩ := h.exists_block hb
  obtain rfl := Option.some.inj (hcontent.symm.trans hbytes)
  obtain ⟨x, y, z, hsized⟩ := hin.exists_sized
  have hstop := hsized.stop_eq
  rw [hsized.length_content (hin.le_length hsized), hin.getSize_eq, hsized.getInternalSize_eq hin.toOrdered]
  omega

/-- What a buffer has in its block, as parts of its bytes. -/
theorem Sound.readData_eq (h : m.Sound) (hb : m.buffers.lookup this = some b) (hbytes : m.bytes this = some out)
    {x y z : ℕ} (hsized : b.Sized x y z) :
    m.readData this b.start x = some (out.take x) ∧
      m.readData this b.zeroAreaStart z = some (out.drop (x + y)) ∧
      out.take x ++ (List.replicate y 0 ++ out.drop (x + y)) = out := by
  obtain ⟨d, hd, hin, hcontent⟩ := h.exists_block hb
  obtain rfl := Option.some.inj (hcontent.symm.trans hbytes)
  have hl := hin.le_length hsized
  have hlen : (slice d.data b.start x).length = x := length_slice (by omega)
  have hstart : d.read b.start x = some (slice d.data b.start x) := if_pos (by rw [Data.size]; omega)
  have hend : d.read b.zeroAreaStart z = some (slice d.data (b.start + x) z) := by
    rw [hsized.zeroAreaStart_eq]
    exact if_pos (by rw [Data.size]; omega)
  have htake : (b.content d.data).take x = slice d.data b.start x := by
    rw [hsized.content_eq, List.take_left' hlen]
  have hdrop : (b.content d.data).drop (x + y) = slice d.data (b.start + x) z := by
    rw [hsized.content_eq, ← List.drop_drop, List.drop_left' hlen, List.drop_left' (List.length_replicate ..)]
  rw [htake, hdrop]
  refine ⟨?_, ?_, (hsized.content_eq d.data).symm⟩
  · simp only [readData, view_eq hb hd, hstart, Option.bind_eq_bind, Option.bind_some]
  · simp only [readData, view_eq hb hd, hend, Option.bind_eq_bind, Option.bind_some]

/-- Bytes are put in front of a small buffer, and written. -/
theorem Sound.prepend (h : m.Sound) (alloc : Allocator) (hb : m.buffers.lookup this = some b)
    (hbytes : m.bytes this = some out) (bytes : List UInt8)
    (hsize : out.length + bytes.length + sizeofData ≤ 2 ^ 32) :
    ∃ dirty m₁ m₂ b', m.addAtStart alloc this bytes.length = some (dirty, m₁) ∧
      m₁.writeAtStart this bytes = some m₂ ∧ m₂.buffers.lookup this = some b' ∧
      b'.start ≤ b.start - bytes.length ∧ m.Becomes m₁ this (m₁.bytes this) ∧
      m.Becomes m₂ this (some (bytes ++ out)) := by
  obtain ⟨d, hd, -, -⟩ := h.exists_block hb
  have hlen := h.length_bytes hb hbytes
  have hfits : b.StartFits d bytes.length := by
    rw [sizeofData] at hsize
    refine .inr ⟨by omega, ?_⟩
    rw [sizeofData]
    omega
  obtain ⟨dirty, m₁, b₁, g, hm₁, hb₁, hstart, hg, hbec₁, howns⟩ := h.addAtStart alloc hb hd hbytes hfits
  obtain ⟨m₂, hm₂, hbec₂, hbuffers⟩ := hbec₁.sound.writeAtStart howns hbec₁.bytes_this
  rw [List.drop_left' hg] at hbec₂
  exact ⟨dirty, m₁, m₂, b₁, hm₁, hm₂, by rw [hbuffers, hb₁], hstart, hbec₁.bytes_this ▸ hbec₁,
    hbec₁.trans hbec₂⟩

/-- `CreateFullCopy` of a buffer with a zero area: the copy has a block of its own, with the zeros in it. -/
theorem Sound.createFullCopy_zeroArea (h : m.Sound) (alloc : Allocator) {tmp : ℕ}
    (htmp : m.buffers.lookup tmp = none) (hb : m.buffers.lookup this = some b) (hbytes : m.bytes this = some out)
    (hzero : sub32 b.zeroAreaEnd b.zeroAreaStart ≠ 0) (hsize : out.length + sizeofData ≤ 2 ^ 32) :
    ∃ m' c, m.createFullCopy alloc tmp this = some m' ∧ m.Becomes m' tmp (some out) ∧ m'.Own tmp c := by
  have hne : this ≠ tmp := by
    rintro rfl
    rw [htmp] at hb
    cases hb
  obtain ⟨d, -, hin, -⟩ := h.exists_block hb
  obtain ⟨x, y, z, hsized⟩ := hin.exists_sized
  obtain ⟨e₁, e₂, e₃⟩ := id hsized
  have hx : sub32 b.zeroAreaStart b.start = x := (sub32_of_le (by omega)).trans (by omega)
  have hy : sub32 b.zeroAreaEnd b.zeroAreaStart = y := (sub32_of_le (by omega)).trans (by omega)
  have hz : sub32 b.stop b.zeroAreaEnd = z := (sub32_of_le (by omega)).trans (by omega)
  have hlen := (h.length_bytes hb hbytes).2.2
  rw [hy] at hzero
  obtain ⟨-, -, hout⟩ := h.readData_eq hb hbytes hsized
  have htotal : out.length = x + y + z := by omega
  rw [sizeofData] at hsize
  -- the zeros
  obtain ⟨m₁, b₁, hm₁, hb₁, hstart₁, hbec₁⟩ := h.initializeBuffer alloc htmp 0 (by omega)
  rw [List.replicate_zero] at hbec₁
  obtain ⟨dirty₂, m₂, m₂', b₂, hm₂, hm₂', hb₂, hstart₂, -, hbec₂⟩ := hbec₁.sound.prepend alloc hb₁
    hbec₁.bytes_this (List.replicate y 0) (by simp only [List.length_replicate, List.length_nil, sizeofData]; omega)
  rw [List.length_replicate] at hm₂ hstart₂
  have hto₂ := hbec₁.trans hbec₂
  -- what lies before them
  have hbefore : (out.take x).length = x := by
    rw [List.length_take]
    omega
  obtain ⟨dirty₃, m₃, m₃', b₃, hm₃, hm₃', hb₃, hstart₃, hbec₃', hbec₃⟩ := hto₂.sound.prepend alloc hb₂
    hto₂.bytes_this (out.take x)
    (by simp only [List.length_append, List.length_replicate, List.length_nil, hbefore, sizeofData]; omega)
  rw [hbefore] at hm₃ hstart₃
  have hto₃' := hto₂.trans hbec₃'
  have hto₃ := hto₂.trans hbec₃
  have hread₃ := (hto₃'.sound.readData_eq ((hto₃'.buffers_eq this hne).trans hb)
    ((hto₃'.bytes_eq this hne).trans hbytes) hsized).1
  -- what lies behind them
  have hbehind : (out.drop (x + y)).length = z := by
    rw [List.length_drop]
    omega
  obtain ⟨d₃, hd₃, hin₃, -⟩ := hto₃.sound.exists_block hb₃
  obtain ⟨hsize₃, hisize₃, hstop₃⟩ := hto₃.sound.length_bytes hb₃ hto₃.bytes_this
  have hlen₃ : (out.take x ++ (List.replicate y 0 ++ [])).length = x + y := by
    simp only [List.length_append, List.length_replicate, hbefore, List.length_nil, Nat.add_zero]
  have hfits : b₃.EndFits d₃ z := by
    rw [EndFits, sizeofData]
    split_ifs <;> omega
  obtain ⟨dirty₄, m₄, g, hm₄, hg, hbec₄, howns⟩ :=
    hto₃.sound.addAtEnd alloc hb₃ hd₃ hto₃.bytes_this hfits
  have hto₄ := hto₃.trans hbec₄
  have hread₄ := (hto₄.sound.readData_eq ((hto₄.buffers_eq this hne).trans hb)
    ((hto₄.bytes_eq this hne).trans hbytes) hsized).2.1
  rw [← hbehind] at howns
  obtain ⟨m₅, hm₅, hbec₅, hbuffers₅⟩ := hto₄.sound.writeAtEnd howns hto₄.bytes_this
  -- in all of this the copy has its block to itself
  obtain ⟨c₁, hown₁⟩ := h.own_initializeBuffer hm₁
  obtain ⟨c₂, hown₂⟩ := hown₁.addAtStart hbec₁.sound (by omega) hm₂
  obtain ⟨c₃, hown₃⟩ := (hown₂.of_buffers_eq (buffers_write hm₂')).addAtStart hto₂.sound (by omega) hm₃
  obtain ⟨c₄, hown₄⟩ := (hown₃.of_buffers_eq (buffers_write hm₃')).addAtEnd hto₃.sound hm₄
  refine ⟨m₅, c₄, ?_, ?_, hown₄.of_buffers_eq hbuffers₅⟩
  · simp only [Memory.createFullCopy, hb, hx, hy, hz, ne_eq, hzero, not_false_eq_true, if_true, hm₁, hm₂, hm₂', hm₃,
      hread₃, hm₃', hm₄, hread₄, hm₅, Option.bind_eq_bind, Option.bind_some]
  have hfull := hto₄.trans hbec₅
  have htake : (out.take x ++ (List.replicate y 0 ++ []) ++ g).length - (out.drop (x + y)).length = x + y := by
    rw [List.length_append, hlen₃, hg, hbehind, Nat.add_sub_cancel]
  rw [htake, List.take_left' hlen₃, List.append_nil, List.append_assoc, hout] at hfull
  exact hfull

/-! ### Every order of calls -/

/-- The buffers as lists of bytes. -/
abbrev Lists := ℕ → Option (List UInt8)

/-- What an event does to lists. -/
def Event.onLists (l : Lists) : Event → Lists
  | .create this dataSize => Function.update l this (some (List.replicate dataSize 0))
  | .copy this o => Function.update l this (l o)
  | .assign this o => Function.update l this (l o)
  | .destroy this => Function.update l this none
  | .createFragment tmp this start length =>
    Function.update l tmp ((l this).map fun bytes => (bytes.drop start).take length)
  | .createFullCopy tmp this => Function.update l tmp (l this)
  | .addAtStart this bytes => Function.update l this ((l this).map fun old => bytes ++ old)
  | .addAtEnd this bytes => Function.update l this ((l this).map fun old => old ++ bytes)
  | .removeAtStart this start => Function.update l this ((l this).map fun old => old.drop start)
  | .removeAtEnd this stop => Function.update l this ((l this).map fun old => old.take (old.length - stop))

/-- The numbers of an event fit: no offset, size or count that the code computes for it wraps around, and a
fragment lies in its buffer. -/
def Event.Fits (m : Memory) : Event → Prop
  | .create _ dataSize => min 1 m.recommendedStart + dataSize < 2 ^ 32
  | .copy _ o => ∀ x ∈ m.view o, x.2.count + 1 < 2 ^ 32
  | .assign this o => ∀ x ∈ m.view o, ∀ b ∈ m.buffers.lookup this, b.data ≠ x.1.data → x.2.count + 1 < 2 ^ 32
  | .destroy _ => True
  | .createFragment _ this start length => ∀ x ∈ m.view this,
    x.2.count + 1 < 2 ^ 32 ∧ x.1.start + start < 2 ^ 32 ∧
      (start + length ≤ x.1.getSize ∨ x.1.getSize ≤ start)
  | .createFullCopy _ this => ∀ x ∈ m.view this,
    if sub32 x.1.zeroAreaEnd x.1.zeroAreaStart ≠ 0 then x.1.getSize + sizeofData ≤ 2 ^ 32
    else x.2.count + 1 < 2 ^ 32
  | .addAtStart this bytes => ∀ x ∈ m.view this, x.1.StartFits x.2 bytes.length
  | .addAtEnd this bytes => ∀ x ∈ m.view this, x.1.EndFits x.2 bytes.length
  | .removeAtStart this start => ∀ x ∈ m.view this, x.1.start + start < 2 ^ 32
  | .removeAtEnd _ _ => True

instance (m : Memory) : ∀ e, Decidable (m.Enabled e)
  | .create .. | .copy .. | .assign .. | .createFullCopy .. | .addAtStart .. | .addAtEnd .. | .removeAtStart ..
  | .removeAtEnd .. => inferInstanceAs (Decidable (_ ∧ _))
  | .destroy _ => inferInstanceAs (Decidable (_ = _))
  | .createFragment .. => inferInstanceAs (Decidable (_ ∧ _ ∧ _ ∧ _))

instance (m : Memory) (e : Event × Allocator) : Decidable (machine.enabled m e) :=
  inferInstanceAs (Decidable (m.Enabled e.1))

instance (m : Memory) : ∀ e, Decidable (Event.Fits m e)
  | .create .. => inferInstanceAs (Decidable (_ < _))
  | .copy _ o => inferInstanceAs (Decidable (∀ x ∈ m.view o, _ < _))
  | .assign this o => inferInstanceAs (Decidable (∀ x ∈ m.view o, ∀ b ∈ m.buffers.lookup this, _ ≠ _ → _ < _))
  | .destroy _ | .removeAtEnd .. => .isTrue trivial
  | .createFragment _ this .. => inferInstanceAs (Decidable (∀ x ∈ m.view this, _ < _ ∧ _ < _ ∧ (_ ≤ _ ∨ _ ≤ _)))
  | .createFullCopy _ this => inferInstanceAs (Decidable (∀ x ∈ m.view this, ite _ _ _))
  | .addAtStart this _ => inferInstanceAs (Decidable (∀ x ∈ m.view this, x.1.StartFits x.2 _))
  | .addAtEnd this _ => inferInstanceAs (Decidable (∀ x ∈ m.view this, x.1.EndFits x.2 _))
  | .removeAtStart this _ => inferInstanceAs (Decidable (∀ x ∈ m.view this, _ < _))

theorem Becomes.bytes_eq_update (h : m.Becomes m' this (some out)) :
    m'.bytes = Function.update m.bytes this (some out) := by
  funext k
  by_cases hk : k = this
  · rw [hk, Function.update_self, h.bytes_this]
  · rw [Function.update_of_ne hk, h.bytes_eq k hk]

/-- One event: the buffers change as lists do. -/
theorem Sound.exec (h : m.Sound) {e : Event} (alloc : Allocator) (hen : m.Enabled e) (hfits : e.Fits m) :
    ∃ m', m.exec alloc e = some m' ∧ m'.Sound ∧ m'.bytes = e.onLists m.bytes := by
  cases e with
  | create this dataSize =>
    obtain ⟨m', -, hm', -, -, hbec⟩ := h.initializeBuffer alloc hen.1 dataSize hfits
    exact ⟨m', hm', hbec.sound, hbec.bytes_eq_update⟩
  | copy this o =>
    obtain ⟨b, hb⟩ := Option.isSome_iff_exists.mp hen.2
    obtain ⟨d, hd, -, hbytes⟩ := h.exists_block hb
    obtain ⟨m', hm', -, hbec⟩ := h.copy hen.1 hb hd (hfits _ (view_eq hb hd))
    rw [hbytes] at hbec
    refine ⟨m', hm', hbec.sound, ?_⟩
    rw [hbec.bytes_eq_update, Event.onLists, hbytes]
  | assign this o =>
    obtain ⟨b, hb⟩ := Option.isSome_iff_exists.mp hen.1
    obtain ⟨ob, ho⟩ := Option.isSome_iff_exists.mp hen.2
    obtain ⟨d, hd, -, hbytes⟩ := h.exists_block ho
    obtain ⟨m', hm', hbec⟩ := h.assign hb ho hd (hfits _ (view_eq ho hd) b hb)
    rw [hbytes] at hbec
    refine ⟨m', hm', hbec.sound, ?_⟩
    rw [hbec.bytes_eq_update, Event.onLists, hbytes]
  | destroy this =>
    obtain ⟨b, hb⟩ := Option.isSome_iff_exists.mp hen
    obtain ⟨m', hm', hbec⟩ := h.destroy hb
    refine ⟨m', hm', hbec.sound, funext fun k => ?_⟩
    by_cases hk : k = this
    · rw [Event.onLists, hk, Function.update_self, hbec.bytes_this]
    · rw [Event.onLists, Function.update_of_ne hk, hbec.bytes_eq k hk]
  | createFragment tmp this start length =>
    obtain ⟨b, hb⟩ := Option.isSome_iff_exists.mp hen.2.1
    obtain ⟨d, hd, -, hbytes⟩ := h.exists_block hb
    obtain ⟨hcount, hstart, hlen⟩ := hfits _ (view_eq hb hd)
    rw [← (h.length_bytes hb hbytes).1] at hlen
    obtain ⟨m', hm', hbec⟩ := h.createFragment hen.1 hb hd hbytes hcount hstart hlen
    refine ⟨m', hm', hbec.sound, ?_⟩
    rw [hbec.bytes_eq_update, Event.onLists, hbytes, Option.map_some]
  | createFullCopy tmp this =>
    obtain ⟨b, hb⟩ := Option.isSome_iff_exists.mp hen.2
    obtain ⟨d, hd, -, hbytes⟩ := h.exists_block hb
    have hroom := hfits _ (view_eq hb hd)
    dsimp only at hroom
    split_ifs at hroom with hzero
    · rw [← (h.length_bytes hb hbytes).1] at hroom
      obtain ⟨m', -, hm', hbec, -⟩ := h.createFullCopy_zeroArea alloc hen.1 hb hbytes hzero hroom
      refine ⟨m', hm', hbec.sound, ?_⟩
      rw [hbec.bytes_eq_update, Event.onLists, hbytes]
    · obtain ⟨m', hm', -, hbec⟩ := h.copy hen.1 hb hd hroom
      rw [hbytes] at hbec
      refine ⟨m', ?_, hbec.sound, ?_⟩
      · simp only [Memory.exec, Memory.createFullCopy, hb, if_neg hzero, hm', Option.bind_eq_bind, Option.bind_some]
      · rw [hbec.bytes_eq_update, Event.onLists, hbytes]
  | addAtStart this bytes =>
    obtain ⟨b, hb⟩ := Option.isSome_iff_exists.mp hen.1
    obtain ⟨d, hd, -, hbytes⟩ := h.exists_block hb
    obtain ⟨dirty, m₁, b₁, g, hm₁, -, -, hg, hbec₁, howns⟩ :=
      h.addAtStart alloc hb hd hbytes (hfits _ (view_eq hb hd))
    obtain ⟨m', hm', hbec, -⟩ := hbec₁.sound.writeAtStart howns hbec₁.bytes_this
    rw [List.drop_left' hg] at hbec
    refine ⟨m', ?_, hbec.sound, ?_⟩
    · simp only [Memory.exec, hm₁, hm', Option.bind_eq_bind, Option.bind_some]
    · rw [(hbec₁.trans hbec).bytes_eq_update, Event.onLists, hbytes, Option.map_some]
  | addAtEnd this bytes =>
    obtain ⟨b, hb⟩ := Option.isSome_iff_exists.mp hen.1
    obtain ⟨d, hd, -, hbytes⟩ := h.exists_block hb
    obtain ⟨dirty, m₁, g, hm₁, hg, hbec₁, howns⟩ := h.addAtEnd alloc hb hd hbytes (hfits _ (view_eq hb hd))
    obtain ⟨m', hm', hbec, -⟩ := hbec₁.sound.writeAtEnd howns hbec₁.bytes_this
    rw [List.length_append, hg, Nat.add_sub_cancel, List.take_left] at hbec
    refine ⟨m', ?_, hbec.sound, ?_⟩
    · simp only [Memory.exec, hm₁, hm', Option.bind_eq_bind, Option.bind_some]
    · rw [(hbec₁.trans hbec).bytes_eq_update, Event.onLists, hbytes, Option.map_some]
  | removeAtStart this start =>
    obtain ⟨b, hb⟩ := Option.isSome_iff_exists.mp hen.1
    obtain ⟨d, hd, -, hbytes⟩ := h.exists_block hb
    obtain ⟨m', hm', -, hbec⟩ := h.removeAtStart hb hbytes (hfits _ (view_eq hb hd))
    refine ⟨m', hm', hbec.sound, ?_⟩
    rw [hbec.bytes_eq_update, Event.onLists, hbytes, Option.map_some]
  | removeAtEnd this stop =>
    obtain ⟨b, hb⟩ := Option.isSome_iff_exists.mp hen.1
    obtain ⟨d, hd, -, hbytes⟩ := h.exists_block hb
    obtain ⟨m', hm', -, hbec⟩ := h.removeAtEnd hb hbytes stop
    refine ⟨m', hm', hbec.sound, ?_⟩
    rw [hbec.bytes_eq_update, Event.onLists, hbytes, Option.map_some]

theorem sound_empty : empty.Sound where
  held k b hb := by cases hb
  block a d hd := by cases hd

/-- The buffers of a memory lie within their blocks. -/
def AllInBounds (m : Memory) : Prop :=
  ∀ k b, m.buffers.lookup k = some b → ∃ d, m.heap.lookup b.data = some d ∧ b.InBounds d

/-- Isolation in a run that ends in `m`: the buffers have the bytes that lists would have, an event changes the
bytes of no buffer but its own, and the buffers lie within their blocks in every state. -/
structure Isolated (tr : List (Memory × Event × Allocator)) (m : Memory) : Prop where
  /-- The buffers are what the list model computes. -/
  bytes_eq : m.bytes = Machine.history (fun _ e l => Event.onLists l e.1) (fun _ => none) tr
  /-- No operation on a buffer changes another. -/
  others : Machine.EveryStep (fun m e m' => ∀ k, k ≠ e.1.target → m'.bytes k = m.bytes k) tr m
  /-- The offsets are in order, and the internal ends inside the allocations. -/
  inBounds : Machine.EveryState AllInBounds tr m

theorem Event.onLists_of_ne (l : Lists) (e : Event) {k : ℕ} (hk : k ≠ e.target) : e.onLists l k = l k := by
  cases e <;> exact Function.update_of_ne hk _ _

/-- A run in which the numbers of all events fit. -/
theorem isolated_run {tr : List (Memory × Event × Allocator)} (h : machine.Run empty tr m)
    (hfits : Machine.Meets (fun m e => Event.Fits m e.1) tr) : m.Sound ∧ Isolated tr m := by
  induction h with
  | nil =>
    have hbounds : AllInBounds empty := fun k b hb => by cases hb
    exact ⟨sound_empty, rfl, trivial, fun x hx => absurd hx List.not_mem_nil, hbounds⟩
  | @snoc tr m m' e hrun hstep ih =>
    obtain ⟨htr, he⟩ := Machine.meets_snoc.mp hfits
    obtain ⟨hsound, hbytes, hothers, hbounds⟩ := ih htr
    obtain ⟨m₁, hm₁, hsound', hbytes'⟩ := hsound.exec e.2 hstep.1 he
    obtain rfl : m₁ = m' := Option.some.inj (hm₁.symm.trans hstep.2)
    refine ⟨hsound', ?_, Machine.everyStep_snoc.mpr ⟨hothers, fun k hk => ?_⟩, ?_, ?_⟩
    · rw [Machine.history_snoc, ← hbytes, hbytes']
    · rw [hbytes', Event.onLists_of_ne _ _ hk]
    · intro x hx
      rcases List.mem_append.mp hx with hx | hx
      · exact hbounds.1 x hx
      · rw [List.mem_singleton.mp hx]
        exact hbounds.2
    · intro k b hb
      obtain ⟨d, hd, hin, -⟩ := hsound'.exists_block hb
      exact ⟨d, hd, hin⟩

/-- **Copy-on-write isolation**: as long as the numbers fit, buffers that share blocks are isolated, and the
next event has a defined behaviour. -/
theorem isolation {tr : List (Memory × Event × Allocator)} (h : machine.Run empty tr m)
    (hfits : Machine.Meets (fun m e => Event.Fits m e.1) tr) :
    Isolated tr m ∧ ∀ e, machine.enabled m e → Event.Fits m e.1 → ∃ m', machine.exec m e = some m' := by
  obtain ⟨hsound, hiso⟩ := isolated_run h hfits
  refine ⟨hiso, fun e hen he => ?_⟩
  obtain ⟨m', hm', -⟩ := hsound.exec e.2 hen he
  exact ⟨m', hm'⟩

/-- A buffer with the bytes 7 and 8 that loses the first, and then as many as there are numbers but one. -/
def overlongRemoval : List (Event × Allocator) :=
  [(.create 0 0, .ascending), (.addAtEnd 0 [7, 8], .ascending), (.removeAtStart 0 1, .ascending),
    (.removeAtStart 0 (2 ^ 32 - 1), .ascending)]

/-- The last removal, of more bytes than there are, brings the first byte back. -/
theorem removed_byte_returns : ∃ tr m, machine.Run empty tr m ∧ ¬ Isolated tr m := by
  obtain ⟨out, -, hrun, hne⟩ := Machine.exists_replay (M := machine) empty overlongRemoval
    (P := fun out => out.2.bytes 0 ≠
      Machine.history (fun _ e l => Event.onLists l e.1) (fun _ => none) out.1 0) (by decide +kernel)
  exact ⟨out.1, out.2, hrun, fun hiso => hne (congrFun hiso.bytes_eq 0)⟩

/-- `isolation` for a run in which a buffer grows in place, its copy is cut and grows, and a fragment is made. -/
theorem isolation_shared_block : ∃ tr m, machine.Run empty tr m ∧ Isolated tr m ∧
    m.bytes 0 = some [1, 2, 0, 0, 7, 8] ∧ m.bytes 1 = some [0, 7, 8, 9] ∧ m.bytes 2 = some [0, 7] := by
  obtain ⟨out, -, hrun, hfits, hbytes⟩ := Machine.exists_replay (M := machine) empty
    [(.create 0 2, .ascending), (.addAtStart 0 [1, 2], .ascending), (.addAtEnd 0 [7, 8], .ascending),
      (.copy 1 0, .ascending), (.removeAtStart 1 3, .ascending), (.addAtEnd 1 [9], .ascending),
      (.createFragment 2 0 3 2, .ascending)]
    (P := fun out => Machine.Meets (fun m e => Event.Fits m e.1) out.1 ∧ out.2.bytes 0 = some [1, 2, 0, 0, 7, 8] ∧
      out.2.bytes 1 = some [0, 7, 8, 9] ∧ out.2.bytes 2 = some [0, 7]) (by decide +kernel)
  exact ⟨out.1, out.2, hrun, (isolation hrun hfits).1, hbytes⟩

end Memory

end Buffer

end Ns3
