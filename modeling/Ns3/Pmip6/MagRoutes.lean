import Ns3.Pmip6.MagTables

/-!
# The routes the gateway leaves behind

For each prefix of an entry `SetupTunnelAndRouting` adds a route through the link of the mobile node
to the routing table, and one through the tunnel to the source routing table.
`ClearTunnelAndRouting` removes the routes that the fields of the entry name when it runs: it does
not know which ones were added, and attachments and acknowledgements write the fields in between.

## What is proved

The `calls` of a run tell which routes were added for an entry, and which of them are `pending`, not
cleared since. `teardown_complete` — in every run whose steps all meet `KeepsRoutes`, no route that
was ever added for an entry is left once the entry was cleared: an entry with a tunnel keeps its
prefixes and its link, is not set up a second time, and is cleared from tables in which `RemoveRoute`
takes no other route for its own. `route_left` is a run in which the mobile node attaches to
another link before it is deregistered.
-/

namespace Ns3.Pmip6

open BindingUpdateList (Entry RefreshDelay)
open Lib

namespace Mag

/-! ### What was added -/

namespace Table

variable (t : Table)

/-- What a call added to the table, and for which entry. -/
def added : Call → List (Identifier × NetworkRoute)
  | .setUp mnId inRoutes inSourceRoutes => (t.select inRoutes inSourceRoutes).map (mnId, ·)
  | .addTunnel _ | .removeTunnel _ | .cleared _ => []

/-- What was ever added to the table. -/
def installed (calls : List Call) : List (Identifier × NetworkRoute) := calls.flatMap t.added

/-- One call more: what is left of what was added, as far as the calls tell. -/
def pendingStep (l : List (Identifier × NetworkRoute)) : Call → List (Identifier × NetworkRoute)
  | .setUp mnId inRoutes inSourceRoutes => l ++ (t.select inRoutes inSourceRoutes).map (mnId, ·)
  | .cleared mnId => l.filter fun x => x.1 ≠ mnId
  | .addTunnel _ | .removeTunnel _ => l

/-- What was added to the table for an entry that was not cleared since. -/
def pending (calls : List Call) : List (Identifier × NetworkRoute) :=
  calls.foldl t.pendingStep []

end Table

/-- `ClearTunnelAndRouting` has run for an entry, and `SetupTunnelAndRouting` has not since. -/
def TornDown (calls : List Call) (mnId : Identifier) : Prop :=
  ∃ before after, calls = before ++ .cleared mnId :: after ∧
    ∀ routes sourceRoutes, .setUp mnId routes sourceRoutes ∉ after

/-- No route that was ever added for an entry remains once the entry was cleared: such a route is in
its table only as often as at the start, and as other entries have it there. -/
def TeardownComplete (s₀ s : Timed) : Prop :=
  ∀ mnId, TornDown s.mag.calls mnId → ∀ (t : Table) (r : NetworkRoute),
    (mnId, r) ∈ t.installed s.mag.calls →
      t.net s.mag r ≤ t.net s₀.mag r + (t.pending s.mag.calls).countP fun x => x.1 ≠ mnId ∧ x.2 = r

/-! ### The condition -/

/-- An attachment leaves the prefixes and the link of the entry. -/
def KeepsLink (pf : Pmipv6Profile.Entry) (link : Link) (bule : Entry) : Prop :=
  (attachedPrefixes pf bule).Perm bule.homeNetworkPrefixes ∧
    ∀ ifIndex ∈ link.ifIndex, BitVec.ofNat 16 ifIndex = bule.ifIndex
deriving Decidable

/-- An entry with a tunnel keeps its prefixes and its link, no second tunnel is set up for it, and its
routes are cleared from tables without others like them. -/
def KeepsRoutes (s : Timed) : Event → Prop
  | .newNode sender _ link => ∀ pf ∈ s.mag.profile.lookup (.ofMac48Address sender),
      ∀ bule ∈ s.mag.buList.lookup pf.mnIdentifier, bule.HasTunnel → KeepsLink pf link bule
  | .pba message => ∀ bule ∈ acceptedEntry s.now message s.mag,
      (bule.HasTunnel → message.bundle.homeNetworkPrefixes.Perm bule.homeNetworkPrefixes) ∧
        if 0 < message.lifetime then
          bule.state = .updating → ¬ bule.HasTunnel ∧ TunnelIndexFits s.mag bule
        else bule.HasTunnel → Clearable s.mag bule
  | .reachableTimeout mnId => ∀ bule ∈ s.mag.buList.lookup mnId, bule.HasTunnel → Clearable s.mag bule
  | .advance _ | .setProfile _ | .otherRadvdInterface | .refreshTimeout _ | .retransTimeout _ => True

instance (s : Timed) (e : Event) : Decidable (KeepsRoutes s e) :=
  match e with
  | .newNode _ _ _ => inferInstanceAs (Decidable (∀ pf ∈ s.mag.profile.lookup _, _))
  | .pba message => inferInstanceAs (Decidable (∀ bule ∈ acceptedEntry s.now message s.mag, _))
  | .reachableTimeout mnId => inferInstanceAs (Decidable (∀ bule ∈ s.mag.buList.lookup mnId, _))
  | .advance _ | .setProfile _ | .otherRadvdInterface | .refreshTimeout _ | .retransTimeout _ => isTrue trivial

/-! ### The log -/

namespace Table

variable {t : Table} {l : List (Identifier × NetworkRoute)} {k k' : Identifier} {r : NetworkRoute}

theorem pending_append (t : Table) (calls calls' : List Call) :
    t.pending (calls ++ calls') = calls'.foldl t.pendingStep (t.pending calls) := by
  rw [pending, List.foldl_append, pending]

/-- What was added for one entry, and what for the others. -/
theorem countP_filter_add (l : List (Identifier × NetworkRoute)) (k : Identifier) (r : NetworkRoute) :
    (l.filter fun x => x.1 ≠ k).countP (fun x => x.2 = r) + l.count (k, r) =
      l.countP fun x => x.2 = r := by
  induction l with
  | nil => rfl
  | cons x l ih =>
    obtain ⟨j, a⟩ := x
    rw [List.count_cons, List.countP_cons, ← ih]
    by_cases hj : j = k
    · rw [List.filter_cons_of_neg (by simpa using hj)]
      simp only [hj, Prod.mk.injEq, true_and, beq_iff_eq, decide_eq_true_eq]
      omega
    · rw [List.filter_cons_of_pos (by simpa using hj), List.countP_cons]
      simp only [hj, Prod.mk.injEq, false_and, beq_iff_eq, decide_eq_true_eq, if_false]
      omega

theorem count_filter_ne (l : List (Identifier × NetworkRoute)) (k k' : Identifier) (r : NetworkRoute) :
    (l.filter fun x => x.1 ≠ k).count (k', r) = if k' = k then 0 else l.count (k', r) := by
  by_cases hk : k' = k
  · rw [if_pos hk, List.count_eq_zero]
    intro hm
    exact of_decide_eq_true (List.mem_filter.mp hm).2 hk
  · rw [if_neg hk, List.count_filter (by simpa using hk)]

theorem count_map_mk (l : NetworkRoutes) (k k' : Identifier) (r : NetworkRoute) :
    (l.map (k, ·)).count (k', r) = if k' = k then l.count r else 0 := by
  by_cases hk : k' = k
  · rw [if_pos hk, hk]
    exact List.count_map_of_injective l (k, ·) (fun a b h => (Prod.mk.inj h).2) r
  · rw [if_neg hk, List.count_eq_zero]
    intro hm
    obtain ⟨a, -, ha⟩ := List.mem_map.mp hm
    exact hk (Prod.mk.inj ha).1.symm

theorem countP_map_mk (l : NetworkRoutes) (k : Identifier) (r : NetworkRoute) :
    (l.map (k, ·)).countP (fun x => x.2 = r) = l.count r := by
  rw [List.countP_map, List.count]
  exact List.countP_congr fun x _ => by simp

/-- Nothing is pending for an entry that is torn down. -/
theorem count_pending_of_tornDown {calls : List Call} (h : TornDown calls k) (t : Table)
    (r : NetworkRoute) : (t.pending calls).count (k, r) = 0 := by
  obtain ⟨before, after, rfl, hafter⟩ := h
  rw [pending_append, List.foldl_cons]
  have hzero : (t.pendingStep (t.pending before) (.cleared k)).count (k, r) = 0 :=
    (count_filter_ne _ k k r).trans (if_pos rfl)
  generalize t.pendingStep (t.pending before) (.cleared k) = l at hzero
  induction after generalizing l with
  | nil => exact hzero
  | cons c after ih =>
    rw [List.foldl_cons]
    refine ih (fun _ _ hm => hafter _ _ (List.mem_cons_of_mem _ hm)) _ ?_
    cases c with
    | addTunnel remote | removeTunnel remote => exact hzero
    | cleared j =>
      rw [pendingStep, count_filter_ne]
      split
      · rfl
      · exact hzero
    | setUp j inRoutes inSourceRoutes =>
      have hj : k ≠ j := by
        rintro rfl
        exact hafter _ _ List.mem_cons_self
      rw [pendingStep, List.count_append, hzero, count_map_mk, if_neg hj]

theorem pending_setUp (t : Table) (mag : Mag) (bule : Entry) :
    t.pending (mag.setUp bule).calls =
      t.pending mag.calls ++ (t.newRoutes mag bule).map (bule.mnIdentifier, ·) :=
  pending_append t mag.calls _

theorem pending_clearTunnel (t : Table) (mag : Mag) (bule : Entry) :
    t.pending (mag.clearTunnel bule).calls =
      (t.pending mag.calls).filter fun x => x.1 ≠ bule.mnIdentifier :=
  pending_append t mag.calls _

end Table

/-! ### Steps -/

/-- The routes an entry has in a table. -/
def Table.held (t : Table) (bule : Entry) : NetworkRoutes := if bule.HasTunnel then t.named bule else []

/-- An entry has the same routes as long as it keeps its tunnel, and with a tunnel its prefixes and
its link. -/
theorem Table.count_held {bule bule' : Entry} (htunnel : bule'.tunnelIfIndex = bule.tunnelIfIndex)
    (hkeep : bule.HasTunnel →
      bule'.homeNetworkPrefixes.Perm bule.homeNetworkPrefixes ∧ bule'.ifIndex = bule.ifIndex)
    (t : Table) (r : NetworkRoute) : (t.held bule').count r = (t.held bule).count r := by
  have hiff : bule'.HasTunnel ↔ bule.HasTunnel := Entry.hasTunnel_congr htunnel
  by_cases ht : bule.HasTunnel
  · rw [held, held, if_pos ht, if_pos (hiff.mpr ht)]
    exact count_named htunnel (hkeep ht).1 (hkeep ht).2 t r
  · rw [held, held, if_neg ht, if_neg (hiff.not.mpr ht)]

/-- The routes that are pending for an entry are those it has, and a table has no others than at the
start and those. -/
structure RoutesKept (s₀ s : Timed) : Prop where
  /-- An entry is that of its mobile node. -/
  name : ∀ k bule, s.mag.buList.lookup k = some bule → bule.mnIdentifier = k
  /-- What is pending for a mobile node is what its entry has. -/
  own : ∀ (t : Table) k r, (t.pending s.mag.calls).count (k, r) =
    ((s.mag.buList.lookup k).elim [] t.held).count r
  /-- What is in a table was there at the start, or is pending. -/
  account : ∀ (t : Table) r,
    t.net s.mag r ≤ t.net s₀.mag r + (t.pending s.mag.calls).countP fun x => x.2 = r
  /-- Tunnel interfaces are only added. -/
  tunnels : ∀ (t : Table) r, (t.ofTunnels s₀.mag).count r ≤ (t.ofTunnels s.mag).count r

namespace RoutesKept

variable {s₀ s s' : Timed} {k : Identifier} {bule bule' : Entry}

/-- Where the tables are kept, nothing of an entry that was cleared is left. -/
theorem teardownComplete (h : RoutesKept s₀ s) : TeardownComplete s₀ s := by
  intro mnId htorn t r _
  have hnone := Table.count_pending_of_tornDown htorn t r
  have hall := h.account t r
  have hsplit := Table.countP_filter_add (t.pending s.mag.calls) mnId r
  rw [List.countP_filter] at hsplit
  have hothers : (t.pending s.mag.calls).countP (fun x => x.1 ≠ mnId ∧ x.2 = r) =
      (t.pending s.mag.calls).countP fun x => x.2 = r ∧ x.1 ≠ mnId :=
    List.countP_congr fun x _ => by simp [and_comm]
  simp only [Bool.decide_and] at hothers hsplit ⊢
  omega

/-- A step that puts an entry with the same routes into the list and leaves the tables. -/
theorem of_entry (h : RoutesKept s₀ s) (hset : s'.mag.buList = s.mag.buList.insert k bule')
    (hcalls : s'.mag.calls = s.mag.calls) (hnode : s'.mag.node = s.mag.node)
    (hsource : s'.mag.sourceRouting = s.mag.sourceRouting) (hname : bule'.mnIdentifier = k)
    (hheld : ∀ (t : Table) r, (t.held bule').count r = ((s.mag.buList.lookup k).elim [] t.held).count r) :
    RoutesKept s₀ s' := by
  have htables := Table.congr hnode hsource
  refine ⟨?_, fun t k' r => ?_, fun t r => ?_, fun t r => ?_⟩
  · rw [hset]
    exact Store.forall_insert h.name hname
  · rw [hcalls, h.own, hset]
    by_cases hk : k' = k
    · rw [hk, AList.lookup_insert]
      exact (hheld t r).symm
    · rw [AList.lookup_insert_ne hk]
  · rw [hcalls, Table.net, (htables t).1, (htables t).2]
    exact h.account t r
  · rw [(htables t).2]
    exact h.tunnels t r

variable {now now' : ℤ}

/-- Routes are set up for an entry that had none. -/
theorem setUp {mag : Mag} {e : Entry} (h : RoutesKept s₀ ⟨now, mag⟩) (hget : mag.buList.lookup k = some bule)
    (hno : ¬ bule.HasTunnel) (hname : e.mnIdentifier = bule.mnIdentifier)
    (hname' : bule'.mnIdentifier = bule.mnIdentifier) (htunnel : bule'.HasTunnel)
    (hnamed : ∀ t : Table, t.named bule' = t.newRoutes mag e) :
    RoutesKept s₀ ⟨now', (mag.setUp e).setEntry k bule'⟩ := by
  have hk : bule.mnIdentifier = k := h.name k bule hget
  have hpending : ∀ t : Table, t.pending ((mag.setUp e).setEntry k bule').calls =
      t.pending mag.calls ++ (t.newRoutes mag e).map (k, ·) := by
    intro t
    rw [← hk, ← hname]
    exact Table.pending_setUp t mag e
  refine ⟨Store.forall_insert h.name (hname'.trans hk), fun t k' r => ?_, fun t r => ?_, fun t r => ?_⟩
  · have hold := h.own t k' r
    rw [hpending, List.count_append, Table.count_map_mk]
    by_cases hkk : k' = k
    · subst hkk
      simp only [hget, Option.elim_some, Table.held, if_neg hno, List.count_nil] at hold
      rw [if_pos rfl, hold, setEntry, AList.lookup_insert, Option.elim_some, Table.held, if_pos htunnel,
        hnamed, Nat.zero_add]
    · rw [if_neg hkk, hold, setEntry, AList.lookup_insert_ne hkk]
      rfl
  · have hold : t.net mag r ≤ t.net s₀.mag r + (t.pending mag.calls).countP fun x => x.2 = r := h.account t r
    have hnet : t.net ((mag.setUp e).setEntry k bule') r = t.net mag r + (t.newRoutes mag e).count r :=
      Table.net_setUp t mag e r
    rw [hpending, List.countP_append, Table.countP_map_mk, hnet]
    push_cast
    omega
  · exact (h.tunnels t r).trans (Table.ofTunnels_setUp t mag e r)

/-- Routes are cleared for an entry whose fields name those it has, if it has any. -/
theorem clear {mag mag' : Mag} {e : Entry} (h : RoutesKept s₀ ⟨now, mag⟩) (hget : mag.buList.lookup k = some bule)
    (hname : e.mnIdentifier = bule.mnIdentifier)
    (hnamed : bule.HasTunnel → Clearable mag e ∧ ∀ (t : Table) r, (t.named e).count r = (t.named bule).count r)
    (hcalls : mag'.calls = (mag.clearTunnel e).calls) (hnode : mag'.node = (mag.clearTunnel e).node)
    (hsource : mag'.sourceRouting = (mag.clearTunnel e).sourceRouting)
    (hother : ∀ k', k' ≠ k → mag'.buList.lookup k' = mag.buList.lookup k')
    (hthis : ∀ bule', mag'.buList.lookup k = some bule' → bule'.mnIdentifier = k ∧ ¬ bule'.HasTunnel) :
    RoutesKept s₀ ⟨now', mag'⟩ := by
  have hk : bule.mnIdentifier = k := h.name k bule hget
  have hpending : ∀ t : Table, t.pending mag'.calls = (t.pending mag.calls).filter fun x => x.1 ≠ k := by
    intro t
    rw [hcalls, ← hk, ← hname]
    exact Table.pending_clearTunnel t mag e
  have htables : ∀ t : Table, t.ofMag mag' = t.ofMag (mag.clearTunnel e) ∧
      t.ofTunnels mag' = t.ofTunnels mag := by
    intro t
    obtain ⟨htable, htunnels⟩ := t.congr hnode hsource
    exact ⟨htable, htunnels.trans (t.ofTunnels_clearTunnel mag e)⟩
  refine ⟨fun k' bule' hb => ?_, fun t k' r => ?_, fun t r => ?_, fun t r => ?_⟩
  · by_cases hkk : k' = k
    · subst hkk
      exact (hthis bule' hb).1
    · exact h.name k' bule' ((hother k' hkk).symm.trans hb)
  · rw [hpending, Table.count_filter_ne]
    by_cases hkk : k' = k
    · subst hkk
      rw [if_pos rfl]
      cases hl : mag'.buList.lookup k' with
      | none => simp
      | some bule' => simp [Table.held, (hthis bule' hl).2]
    · rw [if_neg hkk, hother k' hkk]
      exact h.own t k' r
  · have hown := h.own t k r
    have hold := h.account t r
    have hgrown : (t.ofTunnels s₀.mag).count r ≤ (t.ofTunnels mag).count r := h.tunnels t r
    have hsplit := Table.countP_filter_add (t.pending mag.calls) k r
    simp only [hget, Option.elim_some, Table.held] at hown
    simp only [hpending, Table.net, (htables t).1, (htables t).2] at hold ⊢
    by_cases ht : bule.HasTunnel
    · obtain ⟨hclear, hcount⟩ := hnamed ht
      rw [if_pos ht, ← hcount] at hown
      rw [Table.count_clearTunnel t hclear]
      omega
    · rw [if_neg ht, List.count_nil] at hown
      have hle := Table.count_clearTunnel_le t mag e r
      omega
  · rw [(htables t).2]
    exact h.tunnels t r

/-- An attachment keeps the tables when an entry with a tunnel keeps its prefixes and its link. -/
theorem attach {now now' : ℤ} {mag : Mag} {pf : Pmipv6Profile.Entry} (h : RoutesKept s₀ ⟨now, mag⟩)
    (sequence : UInt16) (hname : bule'.mnIdentifier = (mag.entryFor pf).mnIdentifier)
    (htunnel : bule'.tunnelIfIndex = (mag.entryFor pf).tunnelIfIndex)
    (hkeep : ∀ bule ∈ mag.buList.lookup pf.mnIdentifier, bule.HasTunnel →
      bule'.homeNetworkPrefixes.Perm bule.homeNetworkPrefixes ∧ bule'.ifIndex = bule.ifIndex) :
    RoutesKept s₀ ⟨now', { mag.setEntry pf.mnIdentifier bule' with sequence := sequence }⟩ := by
  cases hget : mag.buList.lookup pf.mnIdentifier with
  | none =>
    rw [entryFor, hget, Option.getD_none] at hname htunnel
    refine h.of_entry rfl rfl rfl rfl hname fun t r => ?_
    show _ = ((mag.buList.lookup pf.mnIdentifier).elim [] t.held).count r
    rw [hget, Table.held, if_neg (Entry.not_hasTunnel htunnel)]
    rfl
  | some bule =>
    rw [entryFor, hget, Option.getD_some] at hname htunnel
    refine h.of_entry rfl rfl rfl rfl (hname.trans (h.name _ bule hget)) fun t r => ?_
    show _ = ((mag.buList.lookup pf.mnIdentifier).elim [] t.held).count r
    rw [hget, Option.elim_some]
    exact Table.count_held htunnel (hkeep bule hget) t r

/-- An entry that keeps its prefixes, its link and its tunnel keeps the tables. -/
theorem keep {mag : Mag} (h : RoutesKept s₀ ⟨now, mag⟩) (hget : mag.buList.lookup k = some bule) (sequence : UInt16)
    (hname : bule'.mnIdentifier = bule.mnIdentifier) (htunnel : bule'.tunnelIfIndex = bule.tunnelIfIndex)
    (hkeep : bule.HasTunnel → bule'.homeNetworkPrefixes.Perm bule.homeNetworkPrefixes ∧ bule'.ifIndex = bule.ifIndex) :
    RoutesKept s₀ ⟨now', { mag.setEntry k bule' with sequence := sequence }⟩ := by
  refine h.of_entry rfl rfl rfl rfl (hname.trans (h.name k bule hget)) fun t r => ?_
  show _ = ((mag.buList.lookup k).elim [] t.held).count r
  rw [hget, Option.elim_some]
  exact Table.count_held htunnel hkeep t r

/-- What runs out takes its routes along. -/
theorem expire {mag : Mag} (h : RoutesKept s₀ ⟨now, mag⟩) (hget : mag.buList.lookup k = some bule)
    (hclear : bule.HasTunnel → Clearable mag bule) :
    RoutesKept s₀ ⟨now', (mag.clearExpired bule).setEntry k (expired bule)⟩ := by
  have hname : (expired bule).mnIdentifier = k := h.name k bule hget
  have hset := buList_expired mag k bule
  by_cases ht : bule.HasTunnel
  · obtain ⟨hcalls, hnode, hsource⟩ := clearExpired_of_hasTunnel mag ht
    have hgone : ¬ (expired bule).HasTunnel := Entry.not_hasTunnel (by rw [expired, if_pos ht])
    refine h.clear hget rfl (fun hx => ⟨hclear hx, fun _ _ => rfl⟩) hcalls hnode hsource
      (fun k' hk => ?_) fun bule' hb => ?_
    · rw [hset, AList.lookup_insert_ne hk]
    · rw [hset, AList.lookup_insert, Option.some.injEq] at hb
      rw [← hb]
      exact ⟨hname, hgone⟩
  · obtain ⟨hcalls, hnode, hsource⟩ := clearExpired_of_not_hasTunnel mag ht
    refine h.of_entry hset hcalls hnode hsource hname fun t r => ?_
    show _ = ((mag.buList.lookup k).elim [] t.held).count r
    rw [hget, Option.elim_some]
    exact Table.count_held (if_neg ht) (fun hx => absurd hx ht) t r

/-- A step that meets the condition keeps the tables. -/
theorem step {refresh : RefreshDelay} {e : Event} (h : RoutesKept s₀ s) (hkeep : KeepsRoutes s e)
    (hs : (machine refresh).Step s e s') : RoutesKept s₀ s' := by
  have hc := change_of_step hs
  obtain ⟨now, mag⟩ := s
  obtain ⟨now', mag'⟩ := s'
  cases hc with
  | advance | setProfile | otherRadvdInterface | unknown | ignore =>
    exact ⟨h.name, h.own, h.account, h.tunnels⟩
  | @attach sender att link pf hpf hlink =>
    simp only [KeepsRoutes, hpf, Option.mem_def, Option.some.injEq, forall_eq'] at hkeep
    refine h.attach mag.sequence (by rw [attach_eq]) (by rw [attach_eq]) fun bule hget ht => ?_
    have hentry : mag.entryFor pf = bule := by rw [entryFor, hget, Option.getD_some]
    rw [attach_eq, hentry]
    exact ⟨(hkeep bule hget ht).1, rfl⟩
  | @update sender att link pf ifIndex hpf hlink =>
    simp only [KeepsRoutes, hpf, Option.mem_def, Option.some.injEq, forall_eq'] at hkeep
    refine h.attach (mag.sequence + 1) (by rw [update_eq, attach_eq]) (by rw [update_eq, attach_eq])
      fun bule hget ht => ?_
    have hentry : mag.entryFor pf = bule := by rw [entryFor, hget, Option.getD_some]
    rw [update_eq, attach_eq, hentry]
    exact ⟨(hkeep bule hget ht).1, (hkeep bule hget ht).2 ifIndex hlink⟩
  | @register pba bule hacc hlife hup =>
    simp only [KeepsRoutes, hacc, if_pos hlife, hup, Option.mem_def, Option.some.injEq, forall_eq',
      forall_const] at hkeep
    obtain ⟨-, hno, hfits⟩ := hkeep
    refine h.setUp (acceptedEntry_spec hacc).1 hno rfl rfl ((hasTunnel_registered refresh now pba mag bule).mpr hfits)
      fun t => ?_
    cases t <;> rfl
  | @renew pba bule hacc hlife hup =>
    simp only [KeepsRoutes, hacc, Option.mem_def, Option.some.injEq, forall_eq'] at hkeep
    exact h.keep (acceptedEntry_spec hacc).1 mag.sequence rfl rfl fun ht => ⟨hkeep.1 ht, rfl⟩
  | @deregister pba bule hacc hlife =>
    simp only [KeepsRoutes, hacc, if_neg hlife, Option.mem_def, Option.some.injEq, forall_eq'] at hkeep
    obtain ⟨hperm, hclear⟩ := hkeep
    have hack : bule.HasTunnel →
        (acknowledge pba bule).homeNetworkPrefixes.Perm bule.homeNetworkPrefixes := hperm
    refine h.clear (e := acknowledge pba bule) (acceptedEntry_spec hacc).1 rfl (fun ht => ⟨?_, fun t r => ?_⟩)
      rfl rfl rfl (fun k' hk => AList.lookup_erase_ne hk) fun bule' hb => ?_
    · exact fun a ha => hclear ht a ((hack ht).subset ha)
    · exact Table.count_named (by rfl) (hack ht) (by rfl) t r
    · rw [AList.lookup_erase] at hb
      cases hb
  | @refreshTimeout mnId bule hget hdue => exact h.keep hget (mag.sequence + 1) rfl rfl fun _ => ⟨.refl _, rfl⟩
  | @reachableTimeout mnId bule hget hdue => exact h.expire hget (hkeep bule hget)
  | @retransTimeout mnId bule t n hget => exact h.keep hget mag.sequence rfl rfl fun _ => ⟨.refl _, rfl⟩

end RoutesKept

/-- In every run whose steps keep the routes, none that was ever added for an entry is left once the
entry was cleared. -/
theorem teardown_complete {refresh : RefreshDelay} {s₀ s : Timed} {tr : List (Timed × Event)}
    (h₀ : s₀.mag.buList = ∅ ∧ s₀.mag.calls = []) (hrun : (machine refresh).Run s₀ tr s)
    (hkeep : Machine.Meets KeepsRoutes tr) : TeardownComplete s₀ s := by
  have hstart : RoutesKept s₀ s₀ := by
    refine ⟨fun k bule hb => ?_, fun t k r => ?_, fun t r => ?_, fun t r => Nat.le_refl _⟩
    · rw [h₀.1, AList.lookup_empty] at hb
      cases hb
    · rw [h₀.1, h₀.2, AList.lookup_empty]
      rfl
    · rw [h₀.2]
      exact le_of_eq (by simp [Table.pending])
  exact (hrun.invariant hkeep hstart fun s e s' hI hG hs => hI.step hG hs).teardownComplete

/-- A mobile node is registered and deregistered on one link, and then on another. -/
def movedEvents : List Event :=
  [Small.attachTo 1, Small.ack 1 60 Small.hnp (Time.seconds 10), Small.ack 1 0 Small.hnp (Time.seconds 10),
    Small.attachTo 2, Small.ack 2 60 Small.hnp (Time.seconds 10), Small.ack 2 0 Small.hnp (Time.seconds 10)]

theorem teardown_complete_when_moved :
    ∃ out, (machine Small.tenthShort).replay Small.gateway movedEvents = some out ∧
      TeardownComplete Small.gateway out.2 := by
  obtain ⟨out, hout, hrun, hkeep⟩ := Machine.exists_replay Small.gateway movedEvents
    (M := machine Small.tenthShort) (P := fun out => Machine.Meets KeepsRoutes out.1) (by decide +kernel)
  exact ⟨out, hout, teardown_complete ⟨rfl, rfl⟩ hrun hkeep⟩

/-- A registered mobile node attaches to another link, is acknowledged there, and its lifetime runs
out. -/
def movedInPlaceEvents : List Event :=
  [Small.attachTo 1, Small.ack 1 1 Small.hnp (Time.seconds 10), Small.attachTo 2,
    Small.ack 2 1 Small.hnp (Time.seconds 10), .advance (Time.milliSeconds 10900), .refreshTimeout Small.mn,
    .advance (Time.seconds 11), .reachableTimeout Small.mn]

/-- What is called until the entry is cleared. -/
def movedInPlaceCalls : List Call :=
  [.addTunnel Small.lma, .setUp Small.mn [networkRoute Small.hnp 1] [networkRoute Small.hnp 3],
    .removeTunnel Small.lma]

/-- Then the route through the first link is left. -/
theorem route_left :
    ∃ out, (machine Small.tenthShort).replay Small.gateway movedInPlaceEvents = some out ∧
      (machine Small.tenthShort).Run Small.gateway out.1 out.2 ∧
      Small.gateway.mag.buList = ∅ ∧ Small.gateway.mag.calls = [] ∧
      out.2.mag.calls = movedInPlaceCalls ++ [.cleared Small.mn] ∧
      networkRoute Small.hnp 1 ∉ Small.gateway.mag.node.staticRouting ∧
      networkRoute Small.hnp 1 ∈ out.2.mag.node.staticRouting ∧
      ¬ TeardownComplete Small.gateway out.2 := by
  obtain ⟨out, hout, hrun, hcalls, hmem, hnet⟩ := Machine.exists_replay Small.gateway movedInPlaceEvents
    (M := machine Small.tenthShort) (P := fun out =>
      out.2.mag.calls = movedInPlaceCalls ++ [.cleared Small.mn] ∧
      networkRoute Small.hnp 1 ∈ out.2.mag.node.staticRouting ∧
      Table.routes.net out.2.mag (networkRoute Small.hnp 1) = 1) (by decide +kernel)
  refine ⟨out, hout, hrun, rfl, rfl, hcalls, by decide, hmem, fun hcomplete => ?_⟩
  have htorn : TornDown out.2.mag.calls Small.mn := by
    rw [hcalls]
    exact ⟨movedInPlaceCalls, [], rfl, fun _ _ => List.not_mem_nil⟩
  have hle := hcomplete Small.mn htorn .routes (networkRoute Small.hnp 1)
  rw [hnet, hcalls] at hle
  exact absurd (hle (by decide)) (by decide)

end Mag

end Ns3.Pmip6
