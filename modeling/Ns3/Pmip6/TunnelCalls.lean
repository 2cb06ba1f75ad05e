import Ns3.Lib.Machine
import Ns3.Pmip6.Tunnel
import Mathlib.Data.Set.Card

/-!
# Any sequence of calls on the tunnel devices

`Ipv6TunnelL4Protocol` under every sequence of `AddTunnel`, `RemoveTunnel` and `ModifyTunnel` whose
callers give back only what they took. The state is the node with the references outstanding, and
the reference counts are what they are in the source: they start at one, and wrap around at `2 ^ 32`.

## What is proved

`Counted` ties the devices to the outstanding references, the counts modulo `2 ^ 32`;
`mem_remotes_addTunnel` and `mem_remotes_removeTunnel` say which remotes have a device after a
call. From these:

* `tunnels_released` — there are devices for exactly the remotes in use, all along a run, exactly
  if no call of the run is one that leaves a device behind or takes one away (`Balanced`).
* `tunnels_unique` — a remote has one device, `AddTunnel` and `ModifyTunnel` return its interface,
  and a device others refer to keeps its remote, as long as neither an interface index nor a
  reference count wraps around (`InRange`).
-/

namespace Ns3.Pmip6

namespace Node

/-! ### Devices by remote -/

variable {n : Node} {d : TunnelNetDevice} {dev : ℕ}

theorem remotes_modifyDevice_eq_set (hd : n.tunnelList[dev]? = some d) (f : TunnelNetDevice → TunnelNetDevice) :
    (n.modifyDevice dev f).remotes = n.remotes.set dev (f d).remoteAddress := by
  refine List.ext_getElem? fun i => ?_
  simp only [remotes, List.getElem?_map, getElem?_modifyDevice, List.getElem?_set, List.length_map]
  obtain ⟨hlt, rfl⟩ := List.getElem?_eq_some_iff.mp hd
  by_cases hi : dev = i
  · subst hi
    simp [hlt]
  · simp [hi]

/-- The remotes after one device was changed. -/
theorem mem_remotes_modifyDevice (hn : n.remotes.Nodup) (hd : n.tunnelList[dev]? = some d)
    (f : TunnelNetDevice → TunnelNetDevice) (a : Ipv6Address) :
    a ∈ (n.modifyDevice dev f).remotes ↔
      a = (f d).remoteAddress ∨ a ∈ n.remotes ∧ a ≠ d.remoteAddress := by
  have hget : n.remotes[dev]? = some d.remoteAddress := by
    rw [remotes, List.getElem?_map, hd]
    rfl
  have hlt := (List.getElem?_eq_some_iff.mp hget).1
  rw [remotes_modifyDevice_eq_set hd]
  constructor
  · intro ha
    obtain ⟨i, hi⟩ := List.mem_iff_getElem?.mp ha
    rw [List.getElem?_set] at hi
    by_cases hdi : dev = i
    · rw [if_pos hdi, if_pos hlt, Option.some.injEq] at hi
      exact .inl hi.symm
    · rw [if_neg hdi] at hi
      refine .inr ⟨List.mem_of_getElem? hi, fun heq => hdi ?_⟩
      rw [heq, ← hget] at hi
      exact (List.getElem?_inj hlt hn).mp hi.symm
  · rintro (rfl | ⟨ha, hne⟩)
    · exact List.mem_set hlt _
    · obtain ⟨i, hi⟩ := List.mem_iff_getElem?.mp ha
      refine List.mem_iff_getElem?.mpr ⟨i, ?_⟩
      rw [List.getElem?_set, if_neg, hi]
      rintro rfl
      rw [hget, Option.some.injEq] at hi
      exact hne hi.symm

/-- The devices are those of the references `refs`, up to the wrap of the counts. -/
structure Counted (n : Node) (refs : Ipv6Address → ℕ) : Prop where
  /-- No two devices have the same remote. -/
  nodup : n.remotes.Nodup
  /-- A device counts the references to it, and the one it was made with. -/
  refCount : ∀ (i : ℕ) (d : TunnelNetDevice), n.tunnelList[i]? = some d →
    d.refCount = UInt32.ofNat (1 + refs d.remoteAddress)
  /-- Every reference is to a device. -/
  device : ∀ r, 0 < refs r → r ∈ n.remotes

variable {refs : Ipv6Address → ℕ}

theorem Counted.congr {n n' : Node} (h : Counted n refs) (hn : n'.tunnelList = n.tunnelList) : Counted n' refs := by
  have hrem : n'.remotes = n.remotes := by rw [remotes, hn, remotes]
  exact ⟨hrem ▸ h.nodup, hn ▸ h.refCount, hrem ▸ h.device⟩

/-- Changing one device, with the references to it. -/
theorem Counted.modifyDevice {refs refs' : Ipv6Address → ℕ} (h : Counted n refs) (hd : n.tunnelList[dev]? = some d)
    {f : TunnelNetDevice → TunnelNetDevice}
    (hnew : (f d).remoteAddress = d.remoteAddress ∨ (f d).remoteAddress ∉ n.remotes)
    (hcount : (f d).refCount = UInt32.ofNat (1 + refs' (f d).remoteAddress))
    (hrefs : ∀ a, a ≠ (f d).remoteAddress → a ≠ d.remoteAddress → refs' a = refs a)
    (hleft : (f d).remoteAddress ≠ d.remoteAddress → refs' d.remoteAddress = 0) :
    Counted (n.modifyDevice dev f) refs' := by
  refine ⟨?_, fun i e he => ?_, fun r hr => ?_⟩
  · rcases hnew with hsame | hnot
    · rw [remotes_modifyDevice fun d' hd' => ?_]
      · exact h.nodup
      · rw [hd, Option.some.injEq] at hd'
        rw [← hd', hsame]
    · rw [remotes_modifyDevice_eq_set hd]
      exact h.nodup.set hnot
  · rw [getElem?_modifyDevice] at he
    by_cases hi : dev = i
    · rw [if_pos hi, ← hi, hd, Option.map_some, Option.some.injEq] at he
      rw [← he, hcount]
    · rw [if_neg hi] at he
      have hother : e.remoteAddress ≠ d.remoteAddress := by
        intro heq
        have hdev := (getTunnelDevice_eq_some_iff h.nodup).mpr ⟨d, hd, rfl⟩
        have hidev := (getTunnelDevice_eq_some_iff h.nodup).mpr ⟨e, he, heq⟩
        rw [hdev, Option.some.injEq] at hidev
        exact hi hidev
      have hmem : e.remoteAddress ∈ n.remotes := List.mem_map.mpr ⟨e, List.mem_of_getElem? he, rfl⟩
      rw [h.refCount i e he, hrefs _ _ hother]
      intro heq
      rcases hnew with hsame | hnot
      · exact hother (heq.trans hsame)
      · exact hnot (heq ▸ hmem)
  · rw [mem_remotes_modifyDevice h.nodup hd]
    by_cases hnewr : r = (f d).remoteAddress
    · exact .inl hnewr
    · by_cases hold : r = d.remoteAddress
      · rw [hold, hleft fun heq => hnewr (hold.trans heq.symm)] at hr
        exact absurd hr (Nat.lt_irrefl 0)
      · rw [hrefs r hnewr hold] at hr
        exact .inr ⟨h.device r hr, hold⟩

/-! ### `AddTunnel` -/

theorem modifyDevice_modifyDevice (n : Node) (dev : ℕ) (f g : TunnelNetDevice → TunnelNetDevice) :
    (n.modifyDevice dev f).modifyDevice dev g = n.modifyDevice dev fun d => g (f d) := by
  simp [modifyDevice, List.modify_modify_eq, Function.comp_def]

/-- A device set to a remote, with the reference of the call that opened it. -/
def opened (r l : Ipv6Address) (d : TunnelNetDevice) : TunnelNetDevice :=
  ((d.setRemoteAddress r).setLocalAddress l).increaseRefCount

theorem tunnelList_addTunnel (n : Node) (r l : Ipv6Address) :
    (n.addTunnel r l).1.tunnelList =
      ((n.openTunnelDevice r l).1.modifyDevice (n.openTunnelDevice r l).2 .increaseRefCount).tunnelList :=
  tunnelList_interfaceForDevice _ _

variable {r : Ipv6Address}

theorem tunnelList_addTunnel_of_some (h : n.getTunnelDevice r = some dev) (l : Ipv6Address) :
    (n.addTunnel r l).1.tunnelList = (n.modifyDevice dev .increaseRefCount).tunnelList := by
  rw [tunnelList_addTunnel, openTunnelDevice_of_some h]

theorem tunnelList_addTunnel_of_freed (h : n.getTunnelDevice r = none) (hz : n.getTunnelDevice .zero = some dev)
    (l : Ipv6Address) : (n.addTunnel r l).1.tunnelList = (n.modifyDevice dev (opened r l)).tunnelList := by
  rw [tunnelList_addTunnel]
  simp only [openTunnelDevice, h, hz, modifyDevice_modifyDevice]
  rfl

theorem tunnelList_addTunnel_of_none (h : n.getTunnelDevice r = none) (hz : n.getTunnelDevice .zero = none)
    (l : Ipv6Address) : (n.addTunnel r l).1.tunnelList = n.tunnelList ++ [⟨l, r, 2⟩] := by
  rw [tunnelList_addTunnel, openTunnelDevice_of_none h hz]
  simp [modifyDevice, List.modify_eq_take_drop, TunnelNetDevice.increaseRefCount]

/-- The remotes after `AddTunnel`: a device is taken from `::` when the remote has none. -/
theorem mem_remotes_addTunnel (hn : n.remotes.Nodup) (r l a : Ipv6Address) :
    a ∈ (n.addTunnel r l).1.remotes ↔ a = r ∨ a ∈ n.remotes ∧ (a = .zero → r ∈ n.remotes) := by
  cases hr : n.getTunnelDevice r with
  | some dev =>
    obtain ⟨d, hd, rfl⟩ := (getTunnelDevice_eq_some_iff hn).mp hr
    have hmem : d.remoteAddress ∈ n.remotes := List.mem_map.mpr ⟨d, List.mem_of_getElem? hd, rfl⟩
    rw [remotes, tunnelList_addTunnel_of_some hr, ← remotes,
      remotes_modifyDevice (f := .increaseRefCount) fun _ _ => rfl]
    constructor
    · exact fun ha => .inr ⟨ha, fun _ => hmem⟩
    · rintro (rfl | ⟨ha, -⟩)
      · exact hmem
      · exact ha
  | none =>
    have hnot := getTunnelDevice_eq_none_iff.mp hr
    cases hz : n.getTunnelDevice .zero with
    | some dev =>
      obtain ⟨d, hd, hdz⟩ := (getTunnelDevice_eq_some_iff hn).mp hz
      rw [remotes, tunnelList_addTunnel_of_freed hr hz, ← remotes, mem_remotes_modifyDevice hn hd, hdz]
      exact or_congr Iff.rfl (and_congr_right fun _ => ⟨fun h he => absurd he h, fun h he => hnot (h he)⟩)
    | none =>
      have hzero := getTunnelDevice_eq_none_iff.mp hz
      rw [remotes, tunnelList_addTunnel_of_none hr hz, List.map_append, ← remotes, List.mem_append, or_comm]
      refine or_congr (by simp) ⟨fun ha => ⟨ha, fun he => absurd (he ▸ ha) hzero⟩, And.left⟩

/-- A caller takes a reference to a remote. -/
def take (refs : Ipv6Address → ℕ) (r : Ipv6Address) : Ipv6Address → ℕ :=
  Function.update refs r (refs r + 1)

/-- A caller gives a reference to a remote back. -/
def drop (refs : Ipv6Address → ℕ) (r : Ipv6Address) : Ipv6Address → ℕ :=
  Function.update refs r (refs r - 1)

@[simp] theorem take_self (refs : Ipv6Address → ℕ) (r : Ipv6Address) : take refs r r = refs r + 1 := by
  simp [take]

@[simp] theorem take_of_ne (refs : Ipv6Address → ℕ) {r a : Ipv6Address} (h : a ≠ r) :
    take refs r a = refs a := by
  simp [take, h]

@[simp] theorem drop_self (refs : Ipv6Address → ℕ) (r : Ipv6Address) : drop refs r r = refs r - 1 := by
  simp [drop]

@[simp] theorem drop_of_ne (refs : Ipv6Address → ℕ) {r a : Ipv6Address} (h : a ≠ r) :
    drop refs r a = refs a := by
  simp [drop, h]

/-- `AddTunnel` keeps the devices and the references together, unless it takes the device from
references to `::`. -/
theorem Counted.addTunnel (h : Counted n refs) (hr : r ∈ n.remotes ∨ refs .zero = 0) (l : Ipv6Address) :
    Counted (n.addTunnel r l).1 (take refs r) := by
  cases hdev : n.getTunnelDevice r with
  | some dev =>
    obtain ⟨d, hd, rfl⟩ := (getTunnelDevice_eq_some_iff h.nodup).mp hdev
    refine Counted.congr ?_ (tunnelList_addTunnel_of_some hdev l)
    refine h.modifyDevice hd (.inl rfl) ?_ (fun a ha _ => take_of_ne refs ha) fun hne => absurd rfl hne
    simp only [TunnelNetDevice.increaseRefCount, take_self, h.refCount dev d hd]
    rw [← Nat.add_assoc, UInt32.ofNat_add (1 + _)]
    rfl
  | none =>
    have hnot := getTunnelDevice_eq_none_iff.mp hdev
    have hfree : refs r = 0 := Nat.eq_zero_of_not_pos fun hp => hnot (h.device r hp)
    have hzrefs := hr.resolve_left hnot
    cases hz : n.getTunnelDevice .zero with
    | some dev =>
      obtain ⟨d, hd, hdz⟩ := (getTunnelDevice_eq_some_iff h.nodup).mp hz
      have hone : d.refCount = 1 := by rw [h.refCount dev d hd, hdz, hzrefs]; rfl
      have hne : r ≠ .zero := fun he => hnot (he ▸ hdz ▸ List.mem_map.mpr ⟨d, List.mem_of_getElem? hd, rfl⟩)
      refine Counted.congr ?_ (tunnelList_addTunnel_of_freed hdev hz l)
      refine h.modifyDevice hd (.inr hnot) ?_ (fun a ha _ => take_of_ne refs ha) fun _ => ?_
      · change d.refCount + 1 = UInt32.ofNat (1 + take refs r r)
        rw [hone, take_self, hfree]
        rfl
      · rw [hdz, take_of_ne refs hne.symm, hzrefs]
    | none =>
      have hrem : (n.addTunnel r l).1.remotes = n.remotes ++ [r] := by
        rw [remotes, tunnelList_addTunnel_of_none hdev hz, List.map_append, ← remotes]
        rfl
      refine ⟨?_, fun i d hd => ?_, fun a ha => ?_⟩
      · rw [hrem]
        exact List.nodup_append.mpr ⟨h.nodup, by simp, fun a ha b hb hab =>
          hnot (List.mem_singleton.mp hb ▸ hab ▸ ha)⟩
      · rw [tunnelList_addTunnel_of_none hdev hz] at hd
        rcases List.mem_append.mp (List.mem_of_getElem? hd) with hm | hm
        · obtain ⟨j, hj⟩ := List.mem_iff_getElem?.mp hm
          have hne : d.remoteAddress ≠ r := fun he => hnot (he ▸ List.mem_map.mpr ⟨d, hm, rfl⟩)
          rw [h.refCount j d hj, take_of_ne refs hne]
        · rw [List.mem_singleton.mp hm, take_self, hfree]
          rfl
      · rw [hrem, List.mem_append, List.mem_singleton]
        by_cases har : a = r
        · exact .inr har
        · rw [take_of_ne refs har] at ha
          exact .inl (h.device a ha)

/-! ### `RemoveTunnel` -/

theorem ofNat_eq_zero_iff (k : ℕ) : UInt32.ofNat k = 0 ↔ 2 ^ 32 ∣ k := by
  rw [← UInt32.toNat_inj, UInt32.toNat_ofNat', UInt32.toNat_zero, Nat.dvd_iff_mod_eq_zero]

/-- The count of a device that gives back one of its `k` references. -/
theorem ofNat_succ_sub_one (k : ℕ) : UInt32.ofNat (1 + k) - 1 = UInt32.ofNat k := by
  rw [Nat.add_comm, UInt32.ofNat_add]
  exact UInt32.add_sub_cancel _ _

theorem Counted.exists_device (h : Counted n refs) (hr : 0 < refs r) :
    ∃ dev d, n.getTunnelDevice r = some dev ∧ n.tunnelList[dev]? = some d ∧
      d.remoteAddress = r ∧ d.refCount = UInt32.ofNat (1 + refs r) := by
  cases hdev : n.getTunnelDevice r with
  | none => exact absurd (h.device r hr) (getTunnelDevice_eq_none_iff.mp hdev)
  | some dev =>
    obtain ⟨d, hd, rfl⟩ := (getTunnelDevice_eq_some_iff h.nodup).mp hdev
    exact ⟨dev, d, rfl, hd, rfl, h.refCount dev d hd⟩

/-- `RemoveTunnel` frees the device exactly when the count comes to zero, which for the references
outstanding is when their number is a multiple of `2 ^ 32`. -/
theorem release_eq {k : ℕ} (h : d.refCount = UInt32.ofNat (1 + k)) :
    d.release = if 2 ^ 32 ∣ k then d.decreaseRefCount.setRemoteAddress .zero else d.decreaseRefCount := by
  simp only [TunnelNetDevice.release, TunnelNetDevice.decreaseRefCount, h, ofNat_succ_sub_one,
    ofNat_eq_zero_iff]

theorem remotes_removeTunnel (h : Counted n refs) (hr : 0 < refs r) (hwrap : r = .zero ∨ ¬ 2 ^ 32 ∣ refs r) :
    (n.removeTunnel r).remotes = n.remotes := by
  obtain ⟨dev, d, hdev, hd, hdr, hcount⟩ := h.exists_device hr
  simp only [removeTunnel, hdev]
  refine remotes_modifyDevice fun d' hd' => ?_
  rw [hd, Option.some.injEq] at hd'
  rw [← hd', release_eq hcount]
  split
  · rw [hdr]
    exact (hwrap.resolve_right (not_not_intro ‹_›)).symm
  · rfl

theorem mem_remotes_removeTunnel_of_dvd (h : Counted n refs) (hr : 0 < refs r) (hwrap : 2 ^ 32 ∣ refs r)
    (a : Ipv6Address) : a ∈ (n.removeTunnel r).remotes ↔ a = .zero ∨ a ∈ n.remotes ∧ a ≠ r := by
  obtain ⟨dev, d, hdev, hd, hdr, hcount⟩ := h.exists_device hr
  simp only [removeTunnel, hdev]
  rw [mem_remotes_modifyDevice h.nodup hd, release_eq hcount, if_pos hwrap, hdr]
  rfl

/-- `RemoveTunnel` keeps the devices and the references together, unless it frees the device. -/
theorem Counted.removeTunnel (h : Counted n refs) (hr : 0 < refs r) (hwrap : r = .zero ∨ ¬ 2 ^ 32 ∣ refs r) :
    Counted (n.removeTunnel r) (drop refs r) := by
  obtain ⟨dev, d, hdev, hd, rfl, hcount⟩ := h.exists_device hr
  have hremote : d.release.remoteAddress = d.remoteAddress := by
    rw [release_eq hcount]
    split
    · exact (hwrap.resolve_right (not_not_intro ‹_›)).symm
    · rfl
  have hrelease : d.release.refCount = UInt32.ofNat (refs d.remoteAddress) := by
    rw [release_eq hcount, ← ofNat_succ_sub_one, ← hcount]
    split <;> rfl
  simp only [Node.removeTunnel, hdev]
  refine h.modifyDevice hd (.inl hremote) ?_ (fun a ha _ => drop_of_ne refs (hremote ▸ ha))
    fun hne => absurd hremote hne
  rw [hrelease, hremote, drop_self, Nat.add_sub_cancel' hr]

/-! ### `ModifyTunnel` -/

variable {out : Node × BitVec 16}

/-- `ModifyTunnel` when the count does not say one: `RemoveTunnel` and `AddTunnel`. -/
theorem Counted.modifyTunnel_eq (h : Counted n refs) {r r' l : Ipv6Address} (hr : 0 < refs r)
    (hwrap : ¬ 2 ^ 32 ∣ refs r) (hout : n.modifyTunnel r r' l = some out) :
    out = (n.removeTunnel r).addTunnel r' l := by
  obtain ⟨dev, d, hdev, hd, rfl, hcount⟩ := h.exists_device hr
  simp only [Node.modifyTunnel, hdev, hd] at hout
  split at hout
  · cases hout
  · rename_i hne
    have hone : 1 < d.refCount := by
      have hsub : d.refCount - 1 ≠ 0 := by
        rw [hcount, ofNat_succ_sub_one]
        exact fun he => hwrap ((ofNat_eq_zero_iff _).mp he)
      rw [UInt32.lt_iff_toNat_lt]
      have h0 : d.refCount.toNat ≠ 0 := fun he => hne (UInt32.toNat_inj.mp he)
      have h1 : d.refCount.toNat ≠ 1 := fun he => hsub (by rw [show d.refCount = 1 from UInt32.toNat_inj.mp he]; rfl)
      simp only [UInt32.reduceToNat]
      omega
    rw [if_pos hone, Option.some.injEq] at hout
    exact hout.symm

/-- `ModifyTunnel` when the count wrapped around to one: the device is set to the new remote. -/
theorem Counted.modifyTunnel_eq_of_dvd (h : Counted n refs) {r r' l : Ipv6Address} (hr : 0 < refs r)
    (hwrap : 2 ^ 32 ∣ refs r) (hout : n.modifyTunnel r r' l = some out) : ∃ dev d ifIndex, n.tunnelList[dev]? = some d ∧
      d.remoteAddress = r ∧ n.getTunnelDevice r = some dev ∧
      n.getInterfaceForDevice (.tunnel dev) = some ifIndex ∧
      out = (n.modifyDevice dev (.setRemoteAddress r'), BitVec.ofNat 16 ifIndex) := by
  obtain ⟨dev, d, hdev, hd, hdr, hcount⟩ := h.exists_device hr
  have hone : d.refCount = 1 := by
    rw [hcount, Nat.add_comm, UInt32.ofNat_add, (ofNat_eq_zero_iff _).mpr hwrap]
    rfl
  simp only [Node.modifyTunnel, hdev, hd, hone] at hout
  cases hif : n.getInterfaceForDevice (.tunnel dev) with
  | none => simp [hif] at hout
  | some ifIndex =>
    simp [hif] at hout
    exact ⟨dev, d, ifIndex, hd, hdr, hdev, hif, hout.symm⟩

theorem mem_remotes_modifyTunnel (h : Counted n refs) {r r' l : Ipv6Address} (hr : 0 < refs r)
    (hwrap : ¬ 2 ^ 32 ∣ refs r) (hout : n.modifyTunnel r r' l = some out) (a : Ipv6Address) :
    a ∈ out.1.remotes ↔ a = r' ∨ a ∈ n.remotes ∧ (a = .zero → r' ∈ n.remotes) := by
  have hrem := remotes_removeTunnel h hr (.inr hwrap)
  rw [h.modifyTunnel_eq hr hwrap hout, mem_remotes_addTunnel (hrem ▸ h.nodup), hrem]

theorem Counted.modifyTunnel (h : Counted n refs) {r r' l : Ipv6Address} (hr : 0 < refs r) (hwrap : ¬ 2 ^ 32 ∣ refs r)
    (hr' : r' ∈ n.remotes ∨ drop refs r .zero = 0) (hout : n.modifyTunnel r r' l = some out) :
    Counted out.1 (take (drop refs r) r') := by
  have hrem := remotes_removeTunnel h hr (.inr hwrap)
  rw [h.modifyTunnel_eq hr hwrap hout]
  exact (h.removeTunnel hr (.inr hwrap)).addTunnel (hrem ▸ hr') l

theorem take_drop_self (hr : 0 < refs r) : take (drop refs r) r = refs := by
  rw [take, drop_self, Nat.sub_add_cancel hr, drop, Function.update_idem, Function.update_eq_self]

theorem Counted.modifyTunnel_self (h : Counted n refs) {r l : Ipv6Address} (hr : 0 < refs r)
    (hout : n.modifyTunnel r r l = some out) : Counted out.1 refs ∧ ∀ a, a ∈ out.1.remotes ↔ a ∈ n.remotes := by
  have hmem := h.device r hr
  by_cases hwrap : 2 ^ 32 ∣ refs r
  · obtain ⟨dev, d, ifIndex, hd, rfl, -, -, rfl⟩ := h.modifyTunnel_eq_of_dvd hr hwrap hout
    have hrem : (n.modifyDevice dev (.setRemoteAddress d.remoteAddress)).remotes = n.remotes :=
      remotes_modifyDevice fun d' hd' => by
        rw [hd, Option.some.injEq] at hd'
        rw [← hd']
        rfl
    exact ⟨h.modifyDevice hd (.inl rfl) (h.refCount dev d hd) (fun _ _ _ => rfl) fun hne => absurd rfl hne,
      fun a => by rw [hrem]⟩
  · refine ⟨take_drop_self hr ▸ h.modifyTunnel hr hwrap (.inl hmem) hout, fun a => ?_⟩
    rw [mem_remotes_modifyTunnel h hr hwrap hout]
    constructor
    · rintro (rfl | ⟨ha, -⟩)
      · exact hmem
      · exact ha
    · exact fun ha => .inr ⟨ha, fun _ => hmem⟩

/-! ### Interfaces and places of devices -/

/-- The device `AddTunnel` takes has the remote after it. -/
theorem getElem?_addTunnel (hn : n.remotes.Nodup) (r l : Ipv6Address) :
    ∃ d, (n.addTunnel r l).1.tunnelList[n.deviceFor r]? = some d ∧ d.remoteAddress = r := by
  cases hr : n.getTunnelDevice r with
  | some dev =>
    obtain ⟨d, hd, hdr⟩ := (getTunnelDevice_eq_some_iff hn).mp hr
    refine ⟨d.increaseRefCount, ?_, hdr⟩
    rw [tunnelList_addTunnel_of_some hr, deviceFor, hr, getElem?_modifyDevice, if_pos rfl, hd]
    rfl
  | none =>
    cases hz : n.getTunnelDevice .zero with
    | some dev =>
      obtain ⟨d, hd, -⟩ := (getTunnelDevice_eq_some_iff hn).mp hz
      refine ⟨opened r l d, ?_, rfl⟩
      rw [tunnelList_addTunnel_of_freed hr hz, deviceFor, hr, hz]
      change (n.modifyDevice dev (opened r l)).tunnelList[dev]? = _
      rw [getElem?_modifyDevice, if_pos rfl, hd]
      rfl
    | none =>
      refine ⟨⟨l, r, 2⟩, ?_, rfl⟩
      rw [tunnelList_addTunnel_of_none hr hz, deviceFor, hr, hz]
      exact List.getElem?_concat_length

theorem prefix_remotes_addTunnel (hz : .zero ∉ n.remotes) (r l : Ipv6Address) :
    n.remotes <+: (n.addTunnel r l).1.remotes := by
  rw [remotes, remotes]
  cases hr : n.getTunnelDevice r with
  | some dev =>
    rw [tunnelList_addTunnel_of_some hr, ← remotes, ← remotes,
      remotes_modifyDevice (f := .increaseRefCount) fun _ _ => rfl]
  | none =>
    rw [tunnelList_addTunnel_of_none hr (getTunnelDevice_eq_none_iff.mpr hz), List.map_append]
    exact List.prefix_append _ _

/-- The interface index is that of the device of the remote. -/
def ServedBy (n : Node) (ifIndex : BitVec 16) (r : Ipv6Address) : Prop :=
  ∃ dev d, n.interfaces[ifIndex.toNat]? = some (.tunnel dev) ∧ n.tunnelList[dev]? = some d ∧
    d.remoteAddress = r

/-- The index of the interface of a device serves its remote exactly if it fits in 16 bits. -/
theorem servedBy_iff (hn : n.remotes.Nodup) {dev ifIndex : ℕ} (hd : n.tunnelList[dev]? = some d)
    (hif : n.getInterfaceForDevice (.tunnel dev) = some ifIndex) :
    n.ServedBy (BitVec.ofNat 16 ifIndex) d.remoteAddress ↔ ifIndex < 2 ^ 16 := by
  rw [getInterfaceForDevice, List.findIdx?_eq_some_iff_getElem] at hif
  obtain ⟨hlt, hdev, hfirst⟩ := hif
  have hat : n.interfaces[ifIndex]? = some (.tunnel dev) := by
    rw [List.getElem?_eq_getElem hlt, of_decide_eq_true hdev]
  constructor
  · rintro ⟨dev', d', hif', hd', hr'⟩
    have hsame : dev' = dev := by
      have h := (getTunnelDevice_eq_some_iff hn).mpr ⟨d, hd, rfl⟩
      have h' := (getTunnelDevice_eq_some_iff hn).mpr ⟨d', hd', hr'⟩
      rw [h, Option.some.injEq] at h'
      exact h'.symm
    rw [BitVec.toNat_ofNat, hsame] at hif'
    obtain ⟨hlt', heq⟩ := List.getElem?_eq_some_iff.mp hif'
    by_contra hge
    have hsmall : ifIndex % 2 ^ 16 < ifIndex :=
      Nat.lt_of_lt_of_le (Nat.mod_lt _ (by decide)) (Nat.le_of_not_lt hge)
    exact hfirst _ hsmall (decide_eq_true heq)
  · intro hsmall
    refine ⟨dev, d, ?_, hd, rfl⟩
    rw [BitVec.toNat_ofNat, Nat.mod_eq_of_lt hsmall, hat]

theorem servedBy_addTunnel_iff (hn : n.remotes.Nodup) (r l : Ipv6Address) (hn' : (n.addTunnel r l).1.remotes.Nodup) :
    (n.addTunnel r l).1.ServedBy (n.addTunnel r l).2 r ↔ n.interfaceFor r < 2 ^ 16 := by
  obtain ⟨d, hd, hdr⟩ := getElem?_addTunnel hn r l
  have hif : (n.addTunnel r l).1.getInterfaceForDevice (.tunnel (n.deviceFor r)) =
      some (n.interfaceFor r) := by
    rw [← n.interfaceFor_eq r l, ← (n.openTunnelDevice_spec r l).2.2]
    exact getInterfaceForDevice_interfaceForDevice _ _
  have hiff := servedBy_iff hn' hd hif
  rwa [hdr, ← addTunnel_snd n r l] at hiff

/-- A device keeps its remote where the remotes were only added to. -/
theorem kept_of_prefix {n n' : Node} (h : n.remotes <+: n'.remotes) {i : ℕ} (hd : n.tunnelList[i]? = some d) :
    ∃ d', n'.tunnelList[i]? = some d' ∧ d'.remoteAddress = d.remoteAddress := by
  have hget : n.remotes[i]? = some d.remoteAddress := by
    rw [remotes, List.getElem?_map, hd]
    rfl
  obtain ⟨t, ht⟩ := h
  have hget' : n'.remotes[i]? = some d.remoteAddress := by
    rw [← ht, List.getElem?_append_left (List.getElem?_eq_some_iff.mp hget).1, hget]
  rw [remotes, List.getElem?_map, Option.map_eq_some_iff] at hget'
  exact hget'

end Node

/-! ### Runs of calls -/

/-- A call on the tunnel devices of a node. -/
inductive TunnelCall where
  /-- `AddTunnel`. -/
  | add (remote localAddr : Ipv6Address)
  /-- `RemoveTunnel`. -/
  | remove (remote : Ipv6Address)
  /-- `ModifyTunnel`. -/
  | modify (remote newRemote localAddr : Ipv6Address)

/-- The remotes a call names. -/
def TunnelCall.remotes : TunnelCall → List Ipv6Address
  | .add r _ => [r]
  | .remove r => [r]
  | .modify r r' _ => [r, r']

/-- The remote a call opens a tunnel to. -/
def TunnelCall.opens : TunnelCall → Option Ipv6Address
  | .add r _ => some r
  | .remove _ => none
  | .modify _ r' _ => some r'

/-- A node, with the references its callers hold. -/
structure TunnelUse where
  node : Node
  /-- The references to each remote: the calls that took one less those that gave one back. -/
  refs : Ipv6Address → ℕ

namespace TunnelUse

/-- A call, and the interface index it returns. -/
def call (s : TunnelUse) : TunnelCall → Option (TunnelUse × Option (BitVec 16))
  | .add r l =>
    let (node, ifIndex) := s.node.addTunnel r l
    some (⟨node, Node.take s.refs r⟩, some ifIndex)
  | .remove r => some (⟨s.node.removeTunnel r, Node.drop s.refs r⟩, none)
  | .modify r r' l =>
    (s.node.modifyTunnel r r' l).map fun out =>
      (⟨out.1, Node.take (Node.drop s.refs r) r'⟩, some out.2)

/-- The calls whose callers give back, or move, only a reference they hold. -/
def machine : Lib.Machine TunnelUse TunnelCall where
  enabled s
    | .add _ _ => True
    | .remove r => 0 < s.refs r
    | .modify r _ _ => 0 < s.refs r
  exec s e := (s.call e).map Prod.fst

instance (s : TunnelUse) : (e : TunnelCall) → Decidable (machine.enabled s e)
  | .add _ _ => isTrue trivial
  | .remove _ => inferInstanceAs (Decidable (_ < _))
  | .modify _ _ _ => inferInstanceAs (Decidable (_ < _))

/-- A node without tunnels, which no one refers to. -/
structure Initial (s : TunnelUse) : Prop where
  /-- There are no tunnel devices. -/
  tunnelList : s.node.tunnelList = []
  refs : ∀ r, s.refs r = 0

/-- A node that has nothing yet. -/
def empty : TunnelUse := ⟨⟨[], [], []⟩, fun _ => 0⟩

theorem initial_empty : empty.Initial := ⟨rfl, fun _ => rfl⟩

variable {s : TunnelUse}

theorem Initial.counted (h : s.Initial) : s.node.Counted s.refs := by
  have hrem : s.node.remotes = [] := by rw [Node.remotes, h.tunnelList, List.map_nil]
  refine ⟨by simp [hrem], by simp [h.tunnelList], fun r hr => ?_⟩
  rw [h.refs] at hr
  exact absurd hr (Nat.lt_irrefl 0)

/-! ### Devices are released -/

/-- There is a device for exactly the remotes in use. -/
def Released (s : TunnelUse) : Prop := ∀ r, r ∈ s.node.remotes ↔ 0 < s.refs r

/-- How many remotes are in use. -/
noncomputable def inUse (s : TunnelUse) : ℕ := {r | 0 < s.refs r}.ncard

/-- The call neither leaves a device without references nor takes one from references: it does not
give the last reference to a remote back, it opens no device while `::` has references that
would lose theirs, and it meets no count that wrapped around. -/
def Balanced (s : TunnelUse) : TunnelCall → Prop
  | .add r _ => 0 < s.refs r ∨ s.refs .zero = 0
  | .remove r => 1 < s.refs r ∧ (r = .zero ∨ ¬ 2 ^ 32 ∣ s.refs r)
  | .modify r r' _ => r' = r ∨ ¬ 2 ^ 32 ∣ s.refs r ∧
      if s.refs r' = 0 ∧ 0 < s.refs .zero then r = .zero ∧ s.refs r = 1 else 1 < s.refs r

instance (s : TunnelUse) : (e : TunnelCall) → Decidable (s.Balanced e)
  | .add _ _ => inferInstanceAs (Decidable (_ ∨ _))
  | .remove _ => inferInstanceAs (Decidable (_ ∧ _))
  | .modify _ _ _ => inferInstanceAs (Decidable (_ ∨ _))

variable {refs : Ipv6Address → ℕ} {n : Node}

theorem released_add_iff (hn : n.Counted refs) (h : Released ⟨n, refs⟩) (r l : Ipv6Address) :
    Released ⟨(n.addTunnel r l).1, Node.take refs r⟩ ↔ 0 < refs r ∨ refs .zero = 0 := by
  have hmem : ∀ a, a ∈ (n.addTunnel r l).1.remotes ↔ a = r ∨ 0 < refs a ∧ (a = .zero → 0 < refs r) :=
    fun a => by rw [Node.mem_remotes_addTunnel hn.nodup, h a, h r]
  constructor
  · intro h'
    by_contra hnot
    rw [not_or] at hnot
    have hne : .zero ≠ r := fun he => hnot.2 (Nat.eq_zero_of_not_pos (he ▸ hnot.1))
    have hzero := (h' .zero).mpr (by
      change 0 < Node.take refs r .zero
      rw [Node.take_of_ne refs hne]
      exact Nat.pos_of_ne_zero hnot.2)
    rcases (hmem .zero).mp hzero with he | ⟨-, hr⟩
    · exact hne he
    · exact hnot.1 (hr rfl)
  · intro hG a
    rw [hmem]
    by_cases har : a = r
    · simp [har]
    · simp only [har, false_or, Node.take_of_ne refs har, and_iff_left_iff_imp]
      rintro ha rfl
      exact hG.resolve_right (Nat.pos_iff_ne_zero.mp ha)

variable {r : Ipv6Address}

theorem released_remove_iff (hn : n.Counted refs) (h : Released ⟨n, refs⟩) (hr : 0 < refs r) :
    Released ⟨n.removeTunnel r, Node.drop refs r⟩ ↔
      1 < refs r ∧ (r = .zero ∨ ¬ 2 ^ 32 ∣ refs r) := by
  by_cases hwrap : r = .zero ∨ ¬ 2 ^ 32 ∣ refs r
  · rw [and_iff_left hwrap]
    have hmem : ∀ a, a ∈ (n.removeTunnel r).remotes ↔ 0 < refs a := fun a => by
      rw [Node.remotes_removeTunnel hn hr hwrap, h a]
    constructor
    · intro h'
      have hpos : 0 < Node.drop refs r r := (h' r).mp ((hmem r).mpr hr)
      rw [Node.drop_self] at hpos
      omega
    · intro hone a
      change a ∈ (n.removeTunnel r).remotes ↔ 0 < Node.drop refs r a
      rw [hmem]
      by_cases har : a = r
      · rw [har, Node.drop_self]
        omega
      · rw [Node.drop_of_ne refs har]
  · refine iff_of_false (fun h' => ?_) fun hG => hwrap hG.2
    rw [not_or, not_not] at hwrap
    have hle := Nat.le_of_dvd hr hwrap.2
    have hpos : 0 < Node.drop refs r r := by
      rw [Node.drop_self]
      omega
    rcases (Node.mem_remotes_removeTunnel_of_dvd hn hr hwrap.2 r).mp ((h' r).mpr hpos) with he | ⟨-, hne⟩
    · exact hwrap.1 he
    · exact hne rfl

theorem released_modify_iff (hn : n.Counted refs) (h : Released ⟨n, refs⟩) {r r' l : Ipv6Address} (hr : 0 < refs r)
    {out : Node × BitVec 16} (hout : n.modifyTunnel r r' l = some out) :
    Released ⟨out.1, Node.take (Node.drop refs r) r'⟩ ↔ Balanced ⟨n, refs⟩ (.modify r r' l) := by
  by_cases hsame : r' = r
  · subst hsame
    rw [Node.take_drop_self hr]
    exact iff_of_true (fun a => ((hn.modifyTunnel_self hr hout).2 a).trans (h a)) (.inl rfl)
  have hrefs : ∀ a, a ≠ r' → Node.take (Node.drop refs r) r' a = Node.drop refs r a := fun a ha =>
    Node.take_of_ne _ ha
  rw [Balanced, or_iff_right hsame]
  by_cases hwrap : 2 ^ 32 ∣ refs r
  · -- the device of `r` was set to `r'`, with references to `r` left
    refine iff_of_false (fun h' => ?_) fun hG => hG.1 hwrap
    have hle := Nat.le_of_dvd hr hwrap
    obtain ⟨dev, d, ifIndex, hd, rfl, -, -, rfl⟩ := hn.modifyTunnel_eq_of_dvd hr hwrap hout
    have hpos : 0 < Node.take (Node.drop refs d.remoteAddress) r' d.remoteAddress := by
      rw [hrefs _ fun he => hsame he.symm, Node.drop_self]
      omega
    rcases (Node.mem_remotes_modifyDevice hn.nodup hd _ _).mp ((h' _).mpr hpos) with he | ⟨-, hne⟩
    · exact hsame he.symm
    · exact hne rfl
  rw [and_iff_right hwrap]
  have hmem : ∀ a, a ∈ out.1.remotes ↔ a = r' ∨ 0 < refs a ∧ (a = .zero → 0 < refs r') := fun a => by
    rw [Node.mem_remotes_modifyTunnel hn hr hwrap hout, h a, h r']
  have hiff : Released ⟨out.1, Node.take (Node.drop refs r) r'⟩ ↔
      ∀ a, a ≠ r' → (0 < refs a ∧ (a = .zero → 0 < refs r') ↔ 0 < Node.drop refs r a) := by
    refine forall_congr' fun a => ?_
    by_cases ha : a = r'
    · simp [hmem, ha]
    · simp [hmem, ha]
  rw [hiff]
  change _ ↔ if refs r' = 0 ∧ 0 < refs .zero then r = .zero ∧ refs r = 1 else 1 < refs r
  split
  · -- the device of `::` was taken for `r'`
    rename_i hsteal
    have hzero : .zero ≠ r' := fun he => by
      rw [← he] at hsteal
      omega
    constructor
    · intro h'
      have hz := h' .zero hzero
      simp only [hsteal.1, Nat.lt_irrefl, imp_false, not_true, and_false, false_iff, not_lt,
        Nat.le_zero] at hz
      by_cases hrz : r = .zero
      · rw [← hrz, Node.drop_self] at hz
        exact ⟨hrz, by omega⟩
      · rw [Node.drop_of_ne refs fun he => hrz he.symm] at hz
        omega
    · rintro ⟨rfl, hone⟩ a -
      by_cases haz : a = .zero
      · simp [haz, hsteal.1, hone]
      · simp [haz]
  · rename_i hsteal
    constructor
    · intro h'
      have hz := (h' r fun he => hsame he.symm).mp ⟨hr, by
        rintro rfl
        omega⟩
      rw [Node.drop_self] at hz
      omega
    · intro hone a _
      by_cases har : a = r
      · subst har
        rw [Node.drop_self]
        refine iff_of_true ⟨hr, ?_⟩ (by omega)
        rintro rfl
        omega
      · rw [Node.drop_of_ne refs har, and_iff_left_iff_imp]
        rintro ha rfl
        omega

/-- One call: there are devices for exactly the remotes in use after it exactly if it is balanced. -/
theorem released_step_iff {s s' : TunnelUse} {e : TunnelCall} (h : s.node.Counted s.refs ∧ s.Released)
    (hs : machine.Step s e s') :
    (s'.Released ↔ s.Balanced e) ∧ (s.Balanced e → s'.node.Counted s'.refs ∧ s'.Released) := by
  obtain ⟨hn, hrel⟩ := h
  obtain ⟨hen, hex⟩ := hs
  obtain ⟨out, hout, rfl⟩ := Option.map_eq_some_iff.mp hex
  cases e with
  | add r l =>
    cases hout
    have hiff := released_add_iff hn hrel r l
    exact ⟨hiff, fun hG => ⟨hn.addTunnel (hG.imp_left (hrel r).mpr) l, hiff.mpr hG⟩⟩
  | remove r =>
    cases hout
    have hiff := released_remove_iff hn hrel hen
    exact ⟨hiff, fun hG => ⟨hn.removeTunnel hen hG.2, hiff.mpr hG⟩⟩
  | modify r r' l =>
    obtain ⟨m, hm, rfl⟩ := Option.map_eq_some_iff.mp hout
    have hiff := released_modify_iff hn hrel hen hm
    refine ⟨hiff, fun hG => ⟨?_, hiff.mpr hG⟩⟩
    rcases hG with rfl | ⟨hwrap, hG⟩
    · rw [Node.take_drop_self hen]
      exact (hn.modifyTunnel_self hen hm).1
    · refine hn.modifyTunnel hen hwrap ?_ hm
      split at hG
      · rw [← hG.1, Node.drop_self, hG.2]
        exact .inr rfl
      · rename_i hsteal
        rw [not_and_or] at hsteal
        refine hsteal.imp (fun hr' => (hrel r').mpr (Nat.pos_of_ne_zero hr')) fun hz => ?_
        have hzero := Nat.eq_zero_of_not_pos hz
        have hne : .zero ≠ r := fun he => by
          rw [he] at hz
          exact hz hen
        rw [Node.drop_of_ne s.refs hne, hzero]

/-- With a device for exactly the remotes in use, there are as many devices as remotes in use. -/
theorem length_tunnelList_eq_inUse (hn : s.node.Counted s.refs) (h : s.Released) :
    s.node.tunnelList.length = s.inUse := by
  have hset : {r | 0 < s.refs r} = (s.node.remotes.toFinset : Set Ipv6Address) := by
    ext r
    rw [List.coe_toFinset]
    exact (h r).symm
  rw [inUse, hset, Set.ncard_coe_finset, List.toFinset_card_of_nodup hn.nodup, Node.remotes,
    List.length_map]

/-- All along a run there are devices for exactly the remotes in use, and at no time more of them
than there were remotes in use at some time, exactly if every call is balanced. -/
theorem tunnels_released {s₀ s : TunnelUse} {tr : List (TunnelUse × TunnelCall)} (h₀ : s₀.Initial)
    (h : machine.Run s₀ tr s) :
    (∀ x ∈ Lib.Machine.states tr s, x.Released ∧
        ∃ y ∈ Lib.Machine.states tr s, x.node.tunnelList.length ≤ y.inUse) ↔
      Lib.Machine.Meets Balanced tr := by
  have hrel : s₀.Released := fun r => by simp [Node.remotes, h₀.tunnelList, h₀.refs]
  obtain ⟨hiff, hkeep⟩ := h.everyState_iff_of_invariant (I := Released)
    (J := fun s => s.node.Counted s.refs ∧ s.Released) ⟨h₀.counted, hrel⟩ (fun _ => And.right)
    fun _ _ _ => released_step_iff
  constructor
  · exact fun hall => hiff.mp (Lib.Machine.everyState_iff_forall_mem_states.mpr fun x hx => (hall x hx).1)
  · intro hG x hx
    obtain ⟨hcounted, hreleased⟩ := Lib.Machine.everyState_iff_forall_mem_states.mp (hkeep hG) x hx
    exact ⟨hreleased, x, hx, Nat.le_of_eq (length_tunnelList_eq_inUse hcounted hreleased)⟩

/-- Two references are taken and one is given back. -/
def sharedCalls : List TunnelCall :=
  [.add (.ofOctets 1 0) .zero, .add (.ofOctets 1 0) .zero, .remove (.ofOctets 1 0)]

theorem tunnels_released_when_shared :
    ∃ out, machine.replay empty sharedCalls = some out ∧
      ∀ x ∈ Lib.Machine.states out.1 out.2, x.Released ∧
        ∃ y ∈ Lib.Machine.states out.1 out.2, x.node.tunnelList.length ≤ y.inUse := by
  obtain ⟨out, hout, hrun, hG⟩ := Lib.Machine.exists_replay empty sharedCalls (M := machine)
    (P := fun out => Lib.Machine.Meets Balanced out.1) (by decide +kernel)
  exact ⟨out, hout, (tunnels_released initial_empty hrun).mpr hG⟩

/-- The only reference is taken and given back. -/
def releasedCalls : List TunnelCall := [.add (.ofOctets 1 0) .zero, .remove (.ofOctets 1 0)]

/-- Then the device stays. -/
theorem tunnel_left :
    ¬ ∀ (s₀ s : TunnelUse) (tr : List (TunnelUse × TunnelCall)), s₀.Initial → machine.Run s₀ tr s →
      ∀ x ∈ Lib.Machine.states tr s, x.Released ∧
        ∃ y ∈ Lib.Machine.states tr s, x.node.tunnelList.length ≤ y.inUse := by
  intro h
  obtain ⟨out, -, hrun, hmem, hrefs⟩ := Lib.Machine.exists_replay empty releasedCalls (M := machine)
    (P := fun out => .ofOctets 1 0 ∈ out.2.node.remotes ∧ out.2.refs (.ofOctets 1 0) = 0)
    (by decide +kernel)
  have hlast : out.2 ∈ Lib.Machine.states out.1 out.2 := List.mem_append_right _ (List.mem_singleton_self _)
  have hpos := ((h empty out.2 out.1 initial_empty hrun out.2 hlast).1 _).mp hmem
  exact absurd hrefs (Nat.pos_iff_ne_zero.mp hpos)

/-! ### Devices are unique -/

/-- The call names no `::`. -/
def NonZero (_ : TunnelUse) (e : TunnelCall) : Prop := .zero ∉ e.remotes
deriving Decidable

/-- No remote but `::` has two devices. -/
def Unique (s : TunnelUse) : Prop :=
  ∀ (i j : ℕ) (d d' : TunnelNetDevice), s.node.tunnelList[i]? = some d →
    s.node.tunnelList[j]? = some d' → d.remoteAddress = d'.remoteAddress → d.remoteAddress ≠ .zero → i = j

/-- The references others hold while a call gives one back. -/
def others (s : TunnelUse) : TunnelCall → Ipv6Address → ℕ
  | .add _ _ => s.refs
  | .remove r => Node.drop s.refs r
  | .modify r _ _ => Node.drop s.refs r

/-- What a call keeps to. -/
structure OneDevice (s : TunnelUse) (e : TunnelCall) (s' : TunnelUse) : Prop where
  unique : s'.Unique
  /-- The interface returned is that of the device of the remote. -/
  served : ∀ out ifIndex r, s.call e = some out → out.2 = some ifIndex → e.opens = some r →
    s'.node.ServedBy ifIndex r
  /-- A device others refer to keeps its remote. -/
  kept : ∀ (i : ℕ) (d : TunnelNetDevice), s.node.tunnelList[i]? = some d → 0 < s.others e d.remoteAddress →
    ∃ d', s'.node.tunnelList[i]? = some d' ∧ d'.remoteAddress = d.remoteAddress

/-- Neither the index of the interface nor the count of the device wraps around in the call. -/
def InRange (s : TunnelUse) : TunnelCall → Prop
  | .add r _ => s.node.interfaceFor r < 2 ^ 16
  | .remove r => ¬ 2 ^ 32 ∣ s.refs r
  | .modify r r' _ => (r' = r ∨ ¬ 2 ^ 32 ∣ s.refs r) ∧ s.node.interfaceFor r' < 2 ^ 16

instance (s : TunnelUse) : (e : TunnelCall) → Decidable (s.InRange e)
  | .add _ _ => inferInstanceAs (Decidable (_ < _))
  | .remove _ => inferInstanceAs (Decidable (¬ _))
  | .modify _ _ _ => inferInstanceAs (Decidable (_ ∧ _))

theorem unique_of_nodup (h : s.node.remotes.Nodup) : s.Unique := by
  intro i j d d' hd hd' heq _
  have hi := (Node.getTunnelDevice_eq_some_iff h).mpr ⟨d, hd, heq⟩
  have hj := (Node.getTunnelDevice_eq_some_iff h).mpr ⟨d', hd', rfl⟩
  rw [hi, Option.some.injEq] at hj
  exact hj

/-- A device that gets another remote while others refer to it is not kept. -/
theorem not_oneDevice_of_moved {s s' : TunnelUse} {e : TunnelCall} {dev : ℕ} {d d' : TunnelNetDevice}
    (hd : s.node.tunnelList[dev]? = some d) (hothers : 0 < s.others e d.remoteAddress)
    (hd' : s'.node.tunnelList[dev]? = some d') (hne : d'.remoteAddress ≠ d.remoteAddress) :
    ¬ OneDevice s e s' := by
  intro h
  obtain ⟨d'', hd'', hsame⟩ := h.kept dev d hd hothers
  rw [hd', Option.some.injEq] at hd''
  exact hne (hd'' ▸ hsame)

/-- What holds between the calls that meet `InRange`. -/
structure Sound (s : TunnelUse) : Prop extends s.node.Counted s.refs where
  remote_ne_zero : .zero ∉ s.node.remotes

theorem Sound.refs_zero (h : s.Sound) : s.refs .zero = 0 :=
  Nat.eq_zero_of_not_pos fun hp => h.remote_ne_zero (h.device _ hp)

/-- Opening a tunnel on a sound node, after which `refs'` are outstanding. -/
theorem Sound.addTunnel (h : Sound ⟨n, refs⟩) (hr : r ≠ .zero) (l : Ipv6Address) :
    Sound ⟨(n.addTunnel r l).1, Node.take refs r⟩ := by
  refine ⟨h.toCounted.addTunnel (.inr h.refs_zero) l, fun hm => ?_⟩
  rcases (Node.mem_remotes_addTunnel h.nodup r l _).mp hm with he | ⟨hz, -⟩
  · exact hr he.symm
  · exact h.remote_ne_zero hz

theorem Sound.oneDevice_add_iff (h : Sound ⟨n, refs⟩) (hr : r ≠ .zero) (l : Ipv6Address) :
    OneDevice ⟨n, refs⟩ (.add r l) ⟨(n.addTunnel r l).1, Node.take refs r⟩ ↔ n.interfaceFor r < 2 ^ 16 := by
  have h' := h.addTunnel hr l
  have hserved := Node.servedBy_addTunnel_iff h.nodup r l h'.nodup
  constructor
  · exact fun hone => hserved.mp (hone.served _ _ _ rfl rfl rfl)
  · intro hrange
    refine ⟨unique_of_nodup h'.nodup, ?_, fun i d hd _ =>
      Node.kept_of_prefix (Node.prefix_remotes_addTunnel h.remote_ne_zero r l) hd⟩
    rintro _ _ _ ⟨⟩ ⟨⟩ ⟨⟩
    exact hserved.mpr hrange

theorem Sound.oneDevice_remove_iff (h : Sound ⟨n, refs⟩) (hr : r ≠ .zero) (hpos : 0 < refs r) :
    OneDevice ⟨n, refs⟩ (.remove r) ⟨n.removeTunnel r, Node.drop refs r⟩ ↔ ¬ 2 ^ 32 ∣ refs r := by
  constructor
  · intro hone hwrap
    have hle := Nat.le_of_dvd hpos hwrap
    obtain ⟨dev, d, hdev, hd, rfl, hcount⟩ := h.toCounted.exists_device hpos
    have hmoved : (n.removeTunnel d.remoteAddress).tunnelList[dev]? =
        some (d.decreaseRefCount.setRemoteAddress .zero) := by
      simp only [Node.removeTunnel, hdev]
      rw [Node.getElem?_modifyDevice, if_pos rfl, hd, Option.map_some, Node.release_eq hcount, if_pos hwrap]
    refine not_oneDevice_of_moved hd ?_ hmoved hr.symm hone
    change 0 < Node.drop refs d.remoteAddress d.remoteAddress
    rw [Node.drop_self]
    omega
  · intro hwrap
    have hrem := Node.remotes_removeTunnel h.toCounted hpos (.inr hwrap)
    refine ⟨unique_of_nodup (hrem ▸ h.nodup), ?_, fun i d hd _ =>
      Node.kept_of_prefix (hrem ▸ List.prefix_rfl) hd⟩
    rintro _ _ _ ⟨⟩ ⟨⟩

/-- The interface of a device does not depend on the count of another. -/
theorem interfaceFor_removeTunnel (hrem : (n.removeTunnel r).remotes = n.remotes) (r' : Ipv6Address) :
    (n.removeTunnel r).interfaceFor r' = n.interfaceFor r' := by
  have hlen : (n.removeTunnel r).tunnelList.length = n.tunnelList.length := by
    simpa [Node.remotes] using congrArg List.length hrem
  have hdev : ∀ a, (n.removeTunnel r).getTunnelDevice a = n.getTunnelDevice a := fun a => by
    rw [Node.getTunnelDevice_eq, hrem, Node.getTunnelDevice_eq]
  have hfor : (n.removeTunnel r).deviceFor r' = n.deviceFor r' := by
    rw [Node.deviceFor, Node.deviceFor, hdev, hdev, hlen]
  rw [Node.interfaceFor, Node.interfaceFor, hfor, Node.getInterfaceForDevice, Node.interfaces_removeTunnel]
  rfl

theorem Sound.oneDevice_modify_iff (h : Sound ⟨n, refs⟩) {r r' l : Ipv6Address} (hr' : r' ≠ .zero) (hpos : 0 < refs r)
    {out : Node × BitVec 16} (hout : n.modifyTunnel r r' l = some out) :
    (OneDevice ⟨n, refs⟩ (.modify r r' l) ⟨out.1, Node.take (Node.drop refs r) r'⟩ ↔
        InRange ⟨n, refs⟩ (.modify r r' l)) ∧
      (InRange ⟨n, refs⟩ (.modify r r' l) → Sound ⟨out.1, Node.take (Node.drop refs r) r'⟩) := by
  have hcall : call ⟨n, refs⟩ (.modify r r' l) =
      some (⟨out.1, Node.take (Node.drop refs r) r'⟩, some out.2) := by
    simp [call, hout]
  -- the call opens a tunnel to `r'`, and keeps the devices it found
  have hiff : ∀ hnodup : out.1.remotes.Nodup, n.remotes <+: out.1.remotes →
      (out.1.ServedBy out.2 r' ↔ n.interfaceFor r' < 2 ^ 16) →
      (OneDevice ⟨n, refs⟩ (.modify r r' l) ⟨out.1, Node.take (Node.drop refs r) r'⟩ ↔
        n.interfaceFor r' < 2 ^ 16) := by
    intro hnodup hprefix hserved
    constructor
    · exact fun hone => hserved.mp (hone.served _ _ _ hcall rfl rfl)
    · intro hrange
      refine ⟨unique_of_nodup hnodup, fun out' ifIndex a ho hi ha => ?_, fun i d hd _ =>
        Node.kept_of_prefix hprefix hd⟩
      rw [hcall, Option.some.injEq] at ho
      subst ho
      cases hi
      cases ha
      exact hserved.mpr hrange
  by_cases hwrap : 2 ^ 32 ∣ refs r
  · obtain ⟨dev, d, ifIndex, hd, rfl, hdev, hif, rfl⟩ := h.toCounted.modifyTunnel_eq_of_dvd hpos hwrap hout
    by_cases hsame : r' = d.remoteAddress
    · subst hsame
      have hsound : Sound ⟨n.modifyDevice dev (.setRemoteAddress d.remoteAddress),
          Node.take (Node.drop refs d.remoteAddress) d.remoteAddress⟩ := by
        obtain ⟨hcounted, hmem⟩ := h.toCounted.modifyTunnel_self hpos hout
        rw [Node.take_drop_self hpos]
        exact ⟨hcounted, fun hz => h.remote_ne_zero ((hmem _).mp hz)⟩
      have hrem : (n.modifyDevice dev (.setRemoteAddress d.remoteAddress)).remotes = n.remotes :=
        Node.remotes_modifyDevice fun d' hd' => by
          rw [hd, Option.some.injEq] at hd'
          rw [← hd']
          rfl
      have hat : (n.modifyDevice dev (.setRemoteAddress d.remoteAddress)).tunnelList[dev]? = some d := by
        rw [Node.getElem?_modifyDevice, if_pos rfl, hd]
        rfl
      have hfor : n.interfaceFor d.remoteAddress = ifIndex := by
        rw [Node.interfaceFor, Node.deviceFor, hdev]
        exact congrArg (Option.getD · _) hif
      have hserved : (n.modifyDevice dev (.setRemoteAddress d.remoteAddress)).ServedBy
          (BitVec.ofNat 16 ifIndex) d.remoteAddress ↔ n.interfaceFor d.remoteAddress < 2 ^ 16 := by
        rw [hfor]
        exact Node.servedBy_iff hsound.nodup hat hif
      refine ⟨(hiff hsound.nodup (hrem ▸ List.prefix_rfl) hserved).trans ?_, fun _ => hsound⟩
      exact ⟨fun hrange => ⟨.inl rfl, hrange⟩, And.right⟩
    · have hnot : ¬ InRange ⟨n, refs⟩ (.modify d.remoteAddress r' l) := fun hrange =>
        (hrange.1.resolve_left hsame) hwrap
      refine ⟨iff_of_false (fun hone => ?_) hnot, fun hrange => absurd hrange hnot⟩
      have hle := Nat.le_of_dvd hpos hwrap
      have hmoved : (n.modifyDevice dev (.setRemoteAddress r')).tunnelList[dev]? =
          some (d.setRemoteAddress r') := by
        rw [Node.getElem?_modifyDevice, if_pos rfl, hd]
        rfl
      refine not_oneDevice_of_moved hd ?_ hmoved hsame hone
      change 0 < Node.drop refs d.remoteAddress d.remoteAddress
      rw [Node.drop_self]
      omega
  · have hrem := Node.remotes_removeTunnel h.toCounted hpos (.inr hwrap)
    have hmid : Sound ⟨n.removeTunnel r, Node.drop refs r⟩ :=
      ⟨h.toCounted.removeTunnel hpos (.inr hwrap), hrem ▸ h.remote_ne_zero⟩
    obtain rfl := h.toCounted.modifyTunnel_eq hpos hwrap hout
    have hsound := hmid.addTunnel hr' l
    have hserved := Node.servedBy_addTunnel_iff hmid.nodup r' l hsound.nodup
    rw [interfaceFor_removeTunnel hrem] at hserved
    refine ⟨(hiff hsound.nodup ?_ hserved).trans ⟨fun hrange => ⟨.inr hwrap, hrange⟩, And.right⟩,
      fun _ => hsound⟩
    rw [← hrem]
    exact Node.prefix_remotes_addTunnel hmid.remote_ne_zero r' l

theorem oneDevice_step_iff {s s' : TunnelUse} {e : TunnelCall} (h : s.Sound) (hz : s.NonZero e)
    (hs : machine.Step s e s') : (OneDevice s e s' ↔ s.InRange e) ∧ (s.InRange e → s'.Sound) := by
  obtain ⟨hen, hex⟩ := hs
  obtain ⟨out, hout, rfl⟩ := Option.map_eq_some_iff.mp hex
  have hne : ∀ r ∈ e.remotes, r ≠ .zero := fun r hr he => hz (he ▸ hr)
  cases e with
  | add r l =>
    cases hout
    have hr := hne r List.mem_cons_self
    exact ⟨h.oneDevice_add_iff hr l, fun _ => h.addTunnel hr l⟩
  | remove r =>
    cases hout
    refine ⟨h.oneDevice_remove_iff (hne r List.mem_cons_self) hen, fun hwrap => ?_⟩
    exact ⟨h.toCounted.removeTunnel hen (.inr hwrap),
      Node.remotes_removeTunnel h.toCounted hen (.inr hwrap) ▸ h.remote_ne_zero⟩
  | modify r r' l =>
    obtain ⟨m, hm, rfl⟩ := Option.map_eq_some_iff.mp hout
    exact h.oneDevice_modify_iff (hne r' (by simp [TunnelCall.remotes])) hen hm

/-- In a run of calls on remotes other than `::`, every call keeps one device for each remote, returns
the interface of the remote's device, and leaves the devices others refer to, exactly if none wraps
around. -/
theorem tunnels_unique {s₀ s : TunnelUse} {tr : List (TunnelUse × TunnelCall)} (h₀ : s₀.Initial)
    (h : machine.Run s₀ tr s) (hz : Lib.Machine.Meets NonZero tr) :
    Lib.Machine.EveryStep OneDevice tr s ↔ Lib.Machine.Meets InRange tr := by
  have hsound : s₀.Sound := ⟨h₀.counted, by simp [Node.remotes, h₀.tunnelList]⟩
  exact (h.everyStep_iff_of_invariant hz hsound fun _ _ _ => oneDevice_step_iff).1

/-- A reference is moved from a remote with two to another. -/
def movedCalls : List TunnelCall :=
  [.add (.ofOctets 1 0) .zero, .add (.ofOctets 1 0) .zero, .modify (.ofOctets 1 0) (.ofOctets 2 0) .zero]

theorem tunnels_unique_when_moved :
    ∃ out, machine.replay empty movedCalls = some out ∧
      Lib.Machine.EveryStep OneDevice out.1 out.2 := by
  obtain ⟨out, hout, hrun, hz, hG⟩ := Lib.Machine.exists_replay empty movedCalls (M := machine)
    (P := fun out => Lib.Machine.Meets NonZero out.1 ∧ Lib.Machine.Meets InRange out.1)
    (by decide +kernel)
  exact ⟨out, hout, (tunnels_unique initial_empty hrun hz).mpr hG⟩

theorem step_add (s : TunnelUse) (r l : Ipv6Address) :
    machine.Step s (.add r l) ⟨(s.node.addTunnel r l).1, Node.take s.refs r⟩ := ⟨trivial, rfl⟩

theorem nonZero_add (s : TunnelUse) (hr : r ≠ .zero) (l : Ipv6Address) : s.NonZero (.add r l) := by
  simpa [NonZero, TunnelCall.remotes] using hr.symm

/-- A node with `2 ^ 16` interfaces. -/
def crowded : TunnelUse := ⟨⟨[], List.replicate (2 ^ 16) (.host 0), []⟩, fun _ => 0⟩

theorem initial_crowded : crowded.Initial := ⟨rfl, fun _ => rfl⟩

theorem interfaceFor_crowded (r : Ipv6Address) : crowded.node.interfaceFor r = 2 ^ 16 := by
  have hnone : crowded.node.getInterfaceForDevice (.tunnel (crowded.node.deviceFor r)) = none := by
    rw [Node.getInterfaceForDevice, List.findIdx?_eq_none_iff]
    intro x hx
    rw [List.eq_of_mem_replicate hx]
    rfl
  rw [Node.interfaceFor, hnone, Option.getD_none]
  exact List.length_replicate

/-- The index of the next interface wraps around to that of the first. -/
theorem tunnel_misplaced :
    ¬ ∀ (s₀ s : TunnelUse) (tr : List (TunnelUse × TunnelCall)), s₀.Initial → machine.Run s₀ tr s →
      Lib.Machine.Meets NonZero tr → Lib.Machine.EveryStep OneDevice tr s := by
  intro h
  have hr : Ipv6Address.ofOctets 1 0 ≠ .zero := by decide
  have hz : Lib.Machine.Meets NonZero [(crowded, .add (.ofOctets 1 0) .zero)] := by
    intro x hx
    rw [List.mem_singleton.mp hx]
    exact nonZero_add crowded hr .zero
  have hone := h crowded _ _ initial_crowded (.snoc .nil (step_add _ _ _)) hz
  have hsound : crowded.Sound := ⟨initial_crowded.counted, List.not_mem_nil⟩
  have hrange : crowded.node.interfaceFor (.ofOctets 1 0) < 2 ^ 16 :=
    (hsound.oneDevice_add_iff hr _).mp hone
  rw [interfaceFor_crowded] at hrange
  exact Nat.lt_irrefl _ hrange

end TunnelUse

end Ns3.Pmip6
