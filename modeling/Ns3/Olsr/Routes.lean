import Ns3.Lib.Layers
import Ns3.Olsr.RoutingTable
import Mathlib.Data.List.Induction

/-!
# The routes of OLSR are shortest paths

The entries are for symmetric neighbours, for 2-hop neighbours, and for what topology tuples lead to from addresses that
are no neighbours. Where a 2-hop tuple does not name an interface of a neighbour, and is not by a neighbour that is a
2-hop neighbour itself, the distances are those of the shortest paths; otherwise an entry may be overwritten, and the
search for the entry to send by may never end.

* `Sends` — the search for the entry to send by ends; `Tied` — it does for every entry of a table.
* `foldl_addNeighbor`, `foldl_addTwoHop`, `Searched.addTopologies` — the table after each of the steps.
* `routingTableComputation_shortestPaths` — the table that is computed.
-/

namespace Ns3.Olsr

open Lib

/-! ### The entry to send by -/

namespace Table

/-- The search for the entry to send by ends. -/
inductive Sends (t : Table) : RoutingTableEntry → RoutingTableEntry → Prop where
  /-- The entry is for its next hop. -/
  | here {e : RoutingTableEntry} : e.destAddr = e.nextAddr → Sends t e e
  /-- It goes on with the entry for the next hop. -/
  | next {e e₁ e' : RoutingTableEntry} : e.destAddr ≠ e.nextAddr → t e.nextAddr = some e₁ → Sends t e₁ e' →
      Sends t e e'

/-- The entry for a next hop is there, and the search ends. -/
def Leads (t : Table) (next : Ipv4Address) : Prop := ∃ e e', t next = some e ∧ Sends t e e'

/-- The search ends for every entry, which is that of its destination. -/
def Tied (t : Table) : Prop := ∀ a e, t a = some e → e.destAddr = a ∧ Leads t e.nextAddr

variable {t t' : Table} {e e' : RoutingTableEntry} {a b : Ipv4Address} {interface distance : ℕ}

theorem Sends.findSendEntry (h : Sends t e e') :
    ∃ fuel, t.findSendEntry fuel e = some (some e') ∧ e'.destAddr = e'.nextAddr := by
  induction h with
  | here hdest =>
    refine ⟨1, ?_, hdest⟩
    rw [Table.findSendEntry, if_neg (not_not.mpr hdest)]
  | next hdest hlookup _ ih =>
    obtain ⟨fuel, hfind, hend⟩ := ih
    refine ⟨fuel + 1, ?_, hend⟩
    rw [Table.findSendEntry, if_pos hdest, hlookup]
    exact hfind

theorem Sends.mono (h : Sends t e e') (hle : ∀ a e, t a = some e → t' a = some e) : Sends t' e e' := by
  induction h with
  | here hdest => exact .here hdest
  | next hdest hlookup _ ih => exact .next hdest (hle _ _ hlookup) ih

theorem Leads.mono (h : Leads t a) (hle : ∀ a e, t a = some e → t' a = some e) : Leads t' a := by
  obtain ⟨e, e', hlookup, hsends⟩ := h
  exact ⟨e, e', hle _ _ hlookup, hsends.mono hle⟩

theorem Leads.sends (h : Leads t e.nextAddr) : ∃ e', Sends t e e' := by
  by_cases hdest : e.destAddr = e.nextAddr
  · exact ⟨e, .here hdest⟩
  · obtain ⟨e₁, e', hlookup, hsends⟩ := h
    exact ⟨e', .next hdest hlookup hsends⟩

theorem addEntry_self : (t.addEntry a b interface distance) a = some ⟨a, b, interface, distance⟩ :=
  Function.update_self _ _ _

theorem addEntry_of_ne {c : Ipv4Address} (h : c ≠ a) : (t.addEntry a b interface distance) c = t c :=
  Function.update_of_ne h _ _

theorem Sends.addEntry (h : Sends t e e') {x' : RoutingTableEntry}
    (hx : Sends (t.addEntry a b interface distance) ⟨a, b, interface, distance⟩ x') :
    ∃ e'', Sends (t.addEntry a b interface distance) e e'' := by
  induction h with
  | @here e hdest => exact ⟨e, .here hdest⟩
  | @next e e₁ e' hdest hlookup _ ih =>
    by_cases ha : e.nextAddr = a
    · exact ⟨x', .next hdest (by rw [ha]; exact addEntry_self) hx⟩
    · obtain ⟨e'', hsends⟩ := ih
      exact ⟨e'', .next hdest ((addEntry_of_ne ha).trans hlookup) hsends⟩

theorem Tied.addEntry (h : Tied t) (hb : Leads (t.addEntry a b interface distance) b)
    {x' : RoutingTableEntry} (hx : Sends (t.addEntry a b interface distance) ⟨a, b, interface, distance⟩ x') :
    Tied (t.addEntry a b interface distance) := by
  intro c e he
  by_cases hc : c = a
  · subst hc
    obtain rfl := Option.some.inj (addEntry_self.symm.trans he)
    exact ⟨rfl, hb⟩
  · rw [addEntry_of_ne hc] at he
    obtain ⟨hdest, e₁, e', hlookup, hsends⟩ := h c e he
    refine ⟨hdest, ?_⟩
    by_cases hnext : e.nextAddr = a
    · exact ⟨_, x', by rw [hnext]; exact addEntry_self, hx⟩
    · obtain ⟨e'', hsends'⟩ := hsends.addEntry hx
      exact ⟨e₁, e'', (addEntry_of_ne hnext).trans hlookup, hsends'⟩

theorem Tied.addEntry_same (h : Tied t) : Tied (t.addEntry a a interface distance) :=
  h.addEntry ⟨_, _, addEntry_self, .here rfl⟩ (.here rfl)

theorem Tied.addEntry_next (h : Tied t) (hne : b ≠ a) (hb : ∃ e, t b = some e ∧ e.destAddr = e.nextAddr) :
    Tied (t.addEntry a b interface distance) := by
  obtain ⟨e, hlookup, hdest⟩ := hb
  have hlookup' : (t.addEntry a b interface distance) b = some e := (addEntry_of_ne hne).trans hlookup
  exact h.addEntry ⟨e, e, hlookup', .here hdest⟩ (.next (Ne.symm hne) hlookup' (.here hdest))

end Table

namespace RoutingProtocol

open Table

variable {n : RoutingProtocol} {now : ℤ}

/-! ### Neighbours -/

/-- An address is that of a symmetric neighbour with a live link, or of such a link. -/
def NeighborBy (n : RoutingProtocol) (now : ℤ) (tuple : NeighborTuple) (a : Ipv4Address) : Prop :=
  tuple.status = .sym ∧ ∃ link ∈ n.liveLinks now tuple, a = tuple.neighborMainAddr ∨ a = link.neighborIfaceAddr
deriving Decidable

/-- The table after some of the neighbour tuples. -/
structure Direct (n : RoutingProtocol) (now : ℤ) (tuples : List NeighborTuple) (t : Table) : Prop where
  tied : Tied t
  distance : ∀ a e, t a = some e → e.distance = 1
  entries : ∀ a, (t a).isSome ↔ ∃ tuple ∈ tuples, n.NeighborBy now tuple a

/-- The entries for links. -/
theorem foldl_links (links : List LinkTuple) (t : Table) (htied : Tied t)
    (hdistance : ∀ a e, t a = some e → e.distance = 1) :
    let t' := links.foldl (fun t link => t.addEntry link.neighborIfaceAddr link.neighborIfaceAddr
      (n.interfaceIndex link.localIfaceAddr) 1) t
    Tied t' ∧ (∀ a e, t' a = some e → e.distance = 1) ∧
      (∀ a, (t' a).isSome ↔ (t a).isSome ∨ ∃ link ∈ links, a = link.neighborIfaceAddr) ∧
      ∀ link ∈ links, ∃ e, t' link.neighborIfaceAddr = some e ∧ e.destAddr = e.nextAddr := by
  induction links using List.reverseRecOn with
  | nil =>
    refine ⟨htied, hdistance, fun a => ?_, fun link hlink => absurd hlink List.not_mem_nil⟩
    simp
  | append_singleton links link ih =>
    obtain ⟨htied', hdistance', hentries, hself⟩ := ih
    rw [List.foldl_append, List.foldl_cons, List.foldl_nil]
    generalize links.foldl _ t = t₁ at htied' hdistance' hentries hself ⊢
    refine ⟨htied'.addEntry_same, fun a e he => ?_, fun a => ?_, fun link' hlink' => ?_⟩
    · by_cases ha : a = link.neighborIfaceAddr
      · subst ha
        obtain rfl := Option.some.inj (addEntry_self.symm.trans he)
        rfl
      · rw [addEntry_of_ne ha] at he
        exact hdistance' a e he
    · by_cases ha : a = link.neighborIfaceAddr
      · subst ha
        rw [addEntry_self]
        exact iff_of_true rfl (.inr ⟨link, by simp, rfl⟩)
      · rw [addEntry_of_ne ha, hentries]
        simp [ha]
    · by_cases hsame : link'.neighborIfaceAddr = link.neighborIfaceAddr
      · exact ⟨_, by rw [hsame]; exact addEntry_self, rfl⟩
      · have hmem : link' ∈ links := by
          rcases List.mem_append.mp hlink' with hmem | hmem
          · exact hmem
          · exact absurd (congrArg LinkTuple.neighborIfaceAddr (List.mem_singleton.mp hmem)) hsame
        obtain ⟨e, he, hdest⟩ := hself link' hmem
        exact ⟨e, (addEntry_of_ne hsame).trans he, hdest⟩

theorem Direct.addNeighbor {tuples : List NeighborTuple} {t : Table} (h : Direct n now tuples t)
    (tuple : NeighborTuple) : Direct n now (tuples ++ [tuple]) (n.addNeighbor now t tuple) := by
  rw [RoutingProtocol.addNeighbor]
  split_ifs with hsym
  · obtain ⟨htied, hdistance, hentries, hself⟩ := n.foldl_links (n.liveLinks now tuple) t h.tied h.distance
    dsimp only
    generalize (n.liveLinks now tuple).foldl _ t = t₁ at htied hdistance hentries hself ⊢
    cases hlast : (n.liveLinks now tuple).getLast? with
    | none =>
      have hnil := List.getLast?_eq_none_iff.mp hlast
      refine ⟨htied, hdistance, fun a => ?_⟩
      simp [hentries, h.entries, NeighborBy, hnil]
    | some lt =>
      have hlt : lt ∈ n.liveLinks now tuple := List.mem_of_getLast? hlast
      dsimp only
      split_ifs with hmain
      · obtain ⟨link, hlink, hsame⟩ := hmain
        refine ⟨htied, hdistance, fun a => ?_⟩
        rw [hentries, h.entries]
        constructor
        · rintro (⟨tuple', htuple', hby⟩ | ⟨link', hlink', rfl⟩)
          · exact ⟨tuple', List.mem_append_left _ htuple', hby⟩
          · exact ⟨tuple, by simp, hsym, link', hlink', .inr rfl⟩
        · rintro ⟨tuple', htuple', hby⟩
          rcases List.mem_append.mp htuple' with hold | hnew
          · exact .inl ⟨tuple', hold, hby⟩
          · obtain rfl := List.mem_singleton.mp hnew
            obtain ⟨-, link', hlink', rfl | rfl⟩ := hby
            · exact .inr ⟨link, hlink, hsame.symm⟩
            · exact .inr ⟨link', hlink', rfl⟩
      · -- the main address is that of none of the links
        have hne : lt.neighborIfaceAddr ≠ tuple.neighborMainAddr := fun heq => hmain ⟨lt, hlt, heq⟩
        refine ⟨htied.addEntry_next hne (hself lt hlt), fun a e he => ?_, fun a => ?_⟩
        · by_cases ha : a = tuple.neighborMainAddr
          · subst ha
            obtain rfl := Option.some.inj (addEntry_self.symm.trans he)
            rfl
          · rw [addEntry_of_ne ha] at he
            exact hdistance a e he
        · by_cases ha : a = tuple.neighborMainAddr
          · subst ha
            rw [addEntry_self]
            exact iff_of_true rfl ⟨tuple, by simp, hsym, lt, hlt, .inl rfl⟩
          · rw [addEntry_of_ne ha, hentries, h.entries]
            simp [NeighborBy, hsym, ha, or_and_right, exists_or]
  · refine ⟨h.tied, h.distance, fun a => ?_⟩
    rw [h.entries]
    simp [NeighborBy, hsym, or_and_right, exists_or]

theorem foldl_addNeighbor (tuples : List NeighborTuple) :
    Direct n now tuples (tuples.foldl (n.addNeighbor now) fun _ => none) := by
  induction tuples using List.reverseRecOn with
  | nil =>
    refine ⟨fun a e he => absurd he nofun, fun a e he => absurd he nofun, fun a => ?_⟩
    simp
  | append_singleton tuples tuple ih =>
    rw [List.foldl_append, List.foldl_cons, List.foldl_nil]
    exact ih.addNeighbor tuple

/-- An address is that of a symmetric neighbour with a live link, or of such a link. -/
def Neighbor (n : RoutingProtocol) (now : ℤ) (a : Ipv4Address) : Prop :=
  ∃ tuple ∈ n.state.neighborSet, n.NeighborBy now tuple a
deriving Decidable

/-! ### 2-hop neighbours -/

/-- A 2-hop tuple through a neighbour names no interface of a neighbour, and one that is not through a neighbour is not
through a 2-hop neighbour either. -/
def Separate (n : RoutingProtocol) (now : ℤ) : Prop :=
  ∀ tuple ∈ n.state.twoHopNeighborSet, n.Considers tuple →
    (n.Neighbor now tuple.neighborMainAddr → ¬ n.Neighbor now tuple.twoHopNeighborAddr) ∧
    (¬ n.Neighbor now tuple.neighborMainAddr → ∀ tuple' ∈ n.state.twoHopNeighborSet, n.Considers tuple' →
      tuple'.twoHopNeighborAddr = tuple.neighborMainAddr → ¬ n.Neighbor now tuple'.neighborMainAddr)
deriving Decidable

/-- A 2-hop tuple through a neighbour. -/
def Through (n : RoutingProtocol) (now : ℤ) (tuple : TwoHopNeighborTuple) (a : Ipv4Address) : Prop :=
  n.Considers tuple ∧ n.Neighbor now tuple.neighborMainAddr ∧ tuple.twoHopNeighborAddr = a
deriving Decidable

/-- The table after some of the 2-hop tuples. -/
structure Second (n : RoutingProtocol) (now : ℤ) (t₁ : Table) (tuples : List TwoHopNeighborTuple) (t : Table) :
    Prop where
  /-- The entries for neighbours stay. -/
  kept : ∀ a e, t₁ a = some e → t a = some e
  entries : ∀ a e, t a = some e → e.destAddr = a ∧ Leads t₁ e.nextAddr ∧
    (t₁ a = some e ∨ e.distance = 2 ∧ ∃ tuple ∈ tuples, n.Through now tuple a)
  found : ∀ tuple ∈ tuples, ∀ a, n.Through now tuple a → (t a).isSome

/-- The table after the 2-hop tuples. -/
theorem foldl_addTwoHop {t₁ : Table} (h₁ : Direct n now n.state.neighborSet t₁) (hseparate : n.Separate now)
    (tuples : List TwoHopNeighborTuple) (hsub : ∀ tuple ∈ tuples, tuple ∈ n.state.twoHopNeighborSet) :
    Second n now t₁ tuples (tuples.foldl n.addTwoHop t₁) := by
  have hneighbor : ∀ a, (t₁ a).isSome ↔ n.Neighbor now a := h₁.entries
  induction tuples using List.reverseRecOn with
  | nil =>
    refine ⟨fun a e he => he, fun a e he => ?_, fun tuple htuple => absurd htuple List.not_mem_nil⟩
    obtain ⟨hdest, hleads⟩ := h₁.tied a e he
    exact ⟨hdest, hleads, .inl he⟩
  | append_singleton tuples tuple ih =>
    obtain ⟨hkept, hentries, hfound⟩ := ih fun tuple' htuple' => hsub tuple' (List.mem_append_left _ htuple')
    rw [List.foldl_append, List.foldl_cons, List.foldl_nil]
    generalize tuples.foldl n.addTwoHop t₁ = t at hkept hentries hfound ⊢
    have hlater : ∀ {a : Ipv4Address}, (∃ tuple' ∈ tuples, n.Through now tuple' a) →
        ∃ tuple' ∈ tuples ++ [tuple], n.Through now tuple' a := fun ⟨tuple', htuple', hthrough⟩ =>
      ⟨tuple', List.mem_append_left _ htuple', hthrough⟩
    have hskip : ¬ (n.Considers tuple ∧ n.Neighbor now tuple.neighborMainAddr) →
        Second n now t₁ (tuples ++ [tuple]) t := by
      intro hnot
      refine ⟨hkept, fun a e he => ?_, fun tuple' htuple' a hthrough => ?_⟩
      · obtain ⟨hdest, hleads, hcases⟩ := hentries a e he
        exact ⟨hdest, hleads, hcases.imp_right fun ⟨hdistance, hfrom⟩ => ⟨hdistance, hlater hfrom⟩⟩
      · rcases List.mem_append.mp htuple' with hold | hnew
        · exact hfound tuple' hold a hthrough
        · obtain rfl := List.mem_singleton.mp hnew
          exact absurd ⟨hthrough.1, hthrough.2.1⟩ hnot
    rw [addTwoHop]
    split_ifs with hconsiders
    · have hmem : tuple ∈ n.state.twoHopNeighborSet := hsub tuple (by simp)
      obtain ⟨hdirect, hother⟩ := hseparate tuple hmem hconsiders
      cases hentry : t tuple.neighborMainAddr with
      | none =>
        refine hskip fun ⟨_, hneigh⟩ => ?_
        obtain ⟨e, he⟩ := Option.isSome_iff_exists.mp ((hneighbor _).mpr hneigh)
        exact absurd ((hkept _ e he).symm.trans hentry) nofun
      | some entry =>
        obtain ⟨-, hleads, hcases⟩ := hentries _ entry hentry
        have hneigh : n.Neighbor now tuple.neighborMainAddr := by
          by_contra hnot
          rcases hcases with hold | ⟨-, tuple', htuple', hconsiders', hneigh', heq⟩
          · exact hnot ((hneighbor _).mp (by rw [hold]; rfl))
          · exact hother hnot tuple' (hsub tuple' (List.mem_append_left _ htuple')) hconsiders' heq hneigh'
        have hnone : t₁ tuple.twoHopNeighborAddr = none := by
          rw [← Option.not_isSome_iff_eq_none, hneighbor]
          exact hdirect hneigh
        dsimp only
        refine ⟨fun a e he => ?_, fun a e he => ?_, fun tuple' htuple' a hthrough => ?_⟩
        · have hne : a ≠ tuple.twoHopNeighborAddr := by
            rintro rfl
            exact absurd (hnone.symm.trans he) nofun
          exact (addEntry_of_ne hne).trans (hkept a e he)
        · by_cases ha : a = tuple.twoHopNeighborAddr
          · subst ha
            obtain rfl := Option.some.inj (addEntry_self.symm.trans he)
            exact ⟨rfl, hleads, .inr ⟨rfl, tuple, by simp, hconsiders, hneigh, rfl⟩⟩
          · obtain ⟨hdest, hleads', hcases'⟩ := hentries a e ((addEntry_of_ne ha).symm.trans he)
            exact ⟨hdest, hleads', hcases'.imp_right fun ⟨hdistance, hfrom⟩ => ⟨hdistance, hlater hfrom⟩⟩
        · by_cases ha : a = tuple.twoHopNeighborAddr
          · subst ha
            rw [addEntry_self]
            rfl
          · rw [addEntry_of_ne ha]
            rcases List.mem_append.mp htuple' with hold | hnew
            · exact hfound tuple' hold a hthrough
            · obtain rfl := List.mem_singleton.mp hnew
              exact absurd hthrough.2.2.symm ha
    · exact hskip fun ⟨hconsiders', _⟩ => hconsiders hconsiders'

end RoutingProtocol

/-! ### Topology tuples -/

namespace Table

/-- The distance of an entry. -/
def dist (t : Table) (a : Ipv4Address) : Option ℕ := (t a).map RoutingTableEntry.distance

theorem dist_eq_some {t : Table} {a : Ipv4Address} {k : ℕ} :
    t.dist a = some k ↔ ∃ e, t a = some e ∧ e.distance = k := by
  simp [dist]

/-- A pass over some of the topology tuples, from the table `t`. -/
structure Pass (h : ℕ) (t : Table) (tuples : List TopologyTuple) (x : Table × Bool) : Prop where
  kept : ∀ a e, t a = some e → x.1 a = some e
  /-- A new one is that of a last hop at distance `h`. -/
  new : ∀ a e, x.1 a = some e → t a = some e ∨ e.destAddr = a ∧ e.distance = h + 1 ∧
    ∃ tuple ∈ tuples, tuple.destAddr = a ∧
      ∃ last, t tuple.lastAddr = some last ∧ last.distance = h ∧ e.nextAddr = last.nextAddr
  /-- The tuples from distance `h` are followed. -/
  next : ∀ tuple ∈ tuples, ∀ last, t tuple.lastAddr = some last → last.distance = h → (x.1 tuple.destAddr).isSome
  /-- Without a new entry the table is the same. -/
  same : x.2 = false → x.1 = t
  /-- What is added was not there. -/
  added : x.2 = true → ∃ tuple ∈ tuples, t tuple.destAddr = none ∧ (x.1 tuple.destAddr).isSome

variable {x : Table × Bool}

theorem Pass.addTopology {h : ℕ} {t : Table} {tuples : List TopologyTuple} (hx : Pass h t tuples x)
    (tuple : TopologyTuple) : Pass h t (tuples ++ [tuple]) (Table.addTopology h x tuple) := by
  obtain ⟨hkept, hnew, hnext, hsame, hadded⟩ := hx
  have hstay : (∀ last, t tuple.lastAddr = some last → last.distance = h → (x.1 tuple.destAddr).isSome) →
      Pass h t (tuples ++ [tuple]) x := by
    intro hfollowed
    refine ⟨hkept, fun a e he => ?_, fun tuple' htuple' last hlast hdistance => ?_, hsame, fun htrue => ?_⟩
    · refine (hnew a e he).imp_right fun ⟨hdest, hdistance, tuple', htuple', hrest⟩ => ?_
      exact ⟨hdest, hdistance, tuple', List.mem_append_left _ htuple', hrest⟩
    · rcases List.mem_append.mp htuple' with hold | hsingle
      · exact hnext tuple' hold last hlast hdistance
      · obtain rfl := List.mem_singleton.mp hsingle
        exact hfollowed last hlast hdistance
    · obtain ⟨tuple', htuple', hrest⟩ := hadded htrue
      exact ⟨tuple', List.mem_append_left _ htuple', hrest⟩
  rw [Table.addTopology]
  cases hdest : x.1 tuple.destAddr with
  | some dest => exact hstay fun _ _ _ => by rw [hdest]; rfl
  | none =>
    cases hlast : x.1 tuple.lastAddr with
    | none =>
      refine hstay fun last hlast' _ => ?_
      exact absurd ((hkept _ _ hlast').symm.trans hlast) nofun
    | some last =>
      dsimp only
      split_ifs with hdistance
      · -- an entry at distance `h` is not one of this pass
        have hold : t tuple.lastAddr = some last := by
          rcases hnew _ _ hlast with hold | ⟨-, hdistance', -⟩
          · exact hold
          · exact absurd (hdistance.symm.trans hdistance') (Nat.succ_ne_self h).symm
        have hnone : t tuple.destAddr = none := by
          cases ht : t tuple.destAddr with
          | none => rfl
          | some e => exact absurd ((hkept _ _ ht).symm.trans hdest) nofun
        refine ⟨fun a e he => ?_, fun a e he => ?_, fun tuple' htuple' last' hlast' hdistance' => ?_,
          fun hfalse => absurd hfalse nofun, fun _ => ?_⟩
        · have hne : a ≠ tuple.destAddr := by
            rintro rfl
            exact absurd (hnone.symm.trans he) nofun
          exact (addEntry_of_ne hne).trans (hkept a e he)
        · by_cases ha : a = tuple.destAddr
          · subst ha
            obtain rfl := Option.some.inj (addEntry_self.symm.trans he)
            exact .inr ⟨rfl, rfl, tuple, by simp, rfl, last, hold, hdistance, rfl⟩
          · refine (hnew a e ((addEntry_of_ne ha).symm.trans he)).imp_right ?_
            rintro ⟨hdest', hdistance', tuple', htuple', hrest⟩
            exact ⟨hdest', hdistance', tuple', List.mem_append_left _ htuple', hrest⟩
        · dsimp only
          by_cases ha : tuple'.destAddr = tuple.destAddr
          · rw [ha, addEntry_self]
            rfl
          · rw [addEntry_of_ne ha]
            rcases List.mem_append.mp htuple' with hin | hsingle
            · exact hnext tuple' hin last' hlast' hdistance'
            · exact absurd (congrArg TopologyTuple.destAddr (List.mem_singleton.mp hsingle)) ha
        · refine ⟨tuple, by simp, hnone, ?_⟩
          dsimp only
          rw [addEntry_self]
          rfl
      · refine hstay fun last' hlast' hdistance' => ?_
        obtain rfl := Option.some.inj (hlast.symm.trans (hkept _ _ hlast'))
        exact absurd hdistance' hdistance

theorem foldl_addTopology (h : ℕ) (t : Table) (tuples : List TopologyTuple) :
    Pass h t tuples (tuples.foldl (addTopology h) (t, false)) := by
  induction tuples using List.reverseRecOn with
  | nil =>
    refine ⟨fun a e he => he, fun a e he => .inl he, fun tuple htuple => absurd htuple List.not_mem_nil,
      fun _ => rfl, fun htrue => absurd htrue nofun⟩
  | append_singleton tuples tuple ih =>
    rw [List.foldl_append, List.foldl_cons, List.foldl_nil]
    exact ih.addTopology tuple

theorem Pass.tied {h : ℕ} {t : Table} {tuples : List TopologyTuple} (hx : Pass h t tuples x) (ht : Tied t) :
    Tied x.1 := by
  intro a e he
  rcases hx.new a e he with hold | ⟨hdest, -, tuple, -, -, last, hlast, -, hnext⟩
  · obtain ⟨hdest, hleads⟩ := ht a e hold
    exact ⟨hdest, hleads.mono hx.kept⟩
  · refine ⟨hdest, ?_⟩
    rw [hnext]
    exact (ht _ _ hlast).2.mono hx.kept

/-- The topology tuples to an address without an entry. -/
def missing (t : Table) (topology : List TopologyTuple) : List TopologyTuple :=
  topology.filter fun tuple => t tuple.destAddr = none

theorem Pass.missing_lt {h : ℕ} {t : Table} {topology : List TopologyTuple} (hx : Pass h t topology x)
    (hadded : x.2 = true) : (x.1.missing topology).length < (t.missing topology).length := by
  obtain ⟨tuple, htuple, hnone, hsome⟩ := hx.added hadded
  have hsub : (x.1.missing topology).Sublist (t.missing topology) := by
    refine List.monotone_filter_right topology fun tuple' hmissing => ?_
    refine decide_eq_true ?_
    cases ht : t tuple'.destAddr with
    | none => rfl
    | some e => exact absurd ((hx.kept _ _ ht).symm.trans (of_decide_eq_true hmissing)) nofun
  refine Nat.lt_of_le_of_ne hsub.length_le fun heq => ?_
  have hmem : tuple ∈ x.1.missing topology := by
    rw [hsub.eq_of_length heq]
    exact List.mem_filter.mpr ⟨htuple, decide_eq_true hnone⟩
  rw [of_decide_eq_true (List.mem_filter.mp hmem).2] at hsome
  exact absurd hsome nofun

theorem addTopologies_succ (topology : List TopologyTuple) (fuel h : ℕ) (t : Table) :
    addTopologies topology (fuel + 1) h t =
      let x := topology.foldl (addTopology h) (t, false)
      if x.2 then addTopologies topology fuel (h + 1) x.1 else some x.1 := rfl

/-- The loop over the distances ends: in each turn but the last a topology tuple is used up. -/
theorem addTopologies_isSome (topology : List TopologyTuple) {fuel h : ℕ} {t : Table}
    (hfuel : (t.missing topology).length < fuel) : (addTopologies topology fuel h t).isSome := by
  induction fuel generalizing h t with
  | zero => exact absurd hfuel (Nat.not_lt_zero _)
  | succ fuel ih =>
    have hpass := foldl_addTopology h t topology
    rw [addTopologies_succ]
    dsimp only
    split_ifs with hadded
    · exact ih (Nat.lt_of_lt_of_le (hpass.missing_lt hadded) (Nat.le_of_lt_succ hfuel))
    · rfl

/-- More fuel changes nothing. -/
theorem addTopologies_mono (topology : List TopologyTuple) {fuel fuel' h : ℕ} {t t' : Table}
    (hrun : addTopologies topology fuel h t = some t') (hle : fuel ≤ fuel') :
    addTopologies topology fuel' h t = some t' := by
  induction fuel generalizing fuel' h t with
  | zero => exact absurd hrun nofun
  | succ fuel ih =>
    obtain ⟨fuel', rfl⟩ := Nat.exists_eq_add_of_lt hle
    rw [addTopologies_succ] at hrun ⊢
    dsimp only at hrun ⊢
    split_ifs at hrun ⊢ with hadded
    · exact ih hrun (Nat.le_add_right _ _)
    · exact hrun

/-! ### Interface associations -/

/-- The table after some of the association tuples. -/
structure Associated (t : Table) (tuples : List IfaceAssocTuple) (t' : Table) : Prop where
  kept : ∀ a e, t a = some e → t' a = some e
  /-- A new one is for an interface that is not the main address, by the next hop of another. -/
  new : ∀ a e, t' a = some e → t a = some e ∨ e.destAddr = a ∧
    (∃ tuple ∈ tuples, tuple.ifaceAddr = a ∧ tuple.mainAddr ≠ a) ∧ ∃ b e', t b = some e' ∧ e.nextAddr = e'.nextAddr

theorem foldl_addIfaceAssoc (t : Table) (tuples : List IfaceAssocTuple) :
    Associated t tuples (tuples.foldl addIfaceAssoc t) := by
  induction tuples using List.reverseRecOn with
  | nil => exact ⟨fun a e he => he, fun a e he => .inl he⟩
  | append_singleton tuples tuple ih =>
    obtain ⟨hkept, hnew⟩ := ih
    rw [List.foldl_append, List.foldl_cons, List.foldl_nil]
    generalize tuples.foldl addIfaceAssoc t = t' at hkept hnew ⊢
    have hlater : ∀ a e, t' a = some e → t a = some e ∨ e.destAddr = a ∧
        (∃ tuple' ∈ tuples ++ [tuple], tuple'.ifaceAddr = a ∧ tuple'.mainAddr ≠ a) ∧
          ∃ b e', t b = some e' ∧ e.nextAddr = e'.nextAddr := by
      intro a e he
      refine (hnew a e he).imp_right fun ⟨hdest, ⟨tuple', htuple', hrest⟩, hnext⟩ => ?_
      exact ⟨hdest, ⟨tuple', List.mem_append_left _ htuple', hrest⟩, hnext⟩
    rw [addIfaceAssoc]
    cases hmain : t' tuple.mainAddr with
    | none => exact ⟨hkept, hlater⟩
    | some entry =>
      cases hiface : t' tuple.ifaceAddr with
      | some entry' => exact ⟨hkept, hlater⟩
      | none =>
        refine ⟨fun a e he => ?_, fun a e he => ?_⟩
        · have hne : a ≠ tuple.ifaceAddr := by
            rintro rfl
            exact absurd (hiface.symm.trans (hkept _ _ he)) nofun
          exact (addEntry_of_ne hne).trans (hkept a e he)
        · by_cases ha : a = tuple.ifaceAddr
          · subst ha
            obtain rfl := Option.some.inj (addEntry_self.symm.trans he)
            have hne : tuple.mainAddr ≠ tuple.ifaceAddr := by
              intro heq
              rw [heq] at hmain
              exact absurd (hiface.symm.trans hmain) nofun
            refine .inr ⟨rfl, ⟨tuple, by simp, rfl, hne⟩, ?_⟩
            rcases hnew _ _ hmain with hold | ⟨-, -, hnext⟩
            · exact ⟨_, entry, hold, rfl⟩
            · exact hnext
          · exact hlater a e ((addEntry_of_ne ha).symm.trans he)

theorem Associated.tied {t t' : Table} {tuples : List IfaceAssocTuple} (h : Associated t tuples t') (ht : Tied t) :
    Tied t' := by
  intro a e he
  rcases h.new a e he with hold | ⟨hdest, -, b, e', hb, hnext⟩
  · obtain ⟨hdest, hleads⟩ := ht a e hold
    exact ⟨hdest, hleads.mono h.kept⟩
  · refine ⟨hdest, ?_⟩
    rw [hnext]
    exact (ht b e' hb).2.mono h.kept

end Table

/-! ### The routing table -/

namespace RoutingProtocol

open Table

variable {n : RoutingProtocol} {now : ℤ}

/-- The distances of neighbours and of 2-hop neighbours. -/
def Starts (n : RoutingProtocol) (now : ℤ) (a : Ipv4Address) (k : ℕ) : Prop :=
  n.Neighbor now a ∧ k = 1 ∨ (∃ tuple ∈ n.state.twoHopNeighborSet, n.Through now tuple a) ∧ k = 2

/-- A topology tuple leads from an address to another one. -/
def Advertises (n : RoutingProtocol) (b a : Ipv4Address) : Prop :=
  ∃ tuple ∈ n.state.topologySet, tuple.lastAddr = b ∧ tuple.destAddr = a

/-- A topology tuple that is not from a neighbour. -/
def Beyond (n : RoutingProtocol) (now : ℤ) (b a : Ipv4Address) : Prop := ¬ n.Neighbor now b ∧ n.Advertises b a

/-- No association tuple has the address as that of another interface. -/
def IsMain (n : RoutingProtocol) (a : Ipv4Address) : Prop :=
  ∀ tuple ∈ n.state.ifaceAssocSet, tuple.ifaceAddr = a → tuple.mainAddr = a
deriving Decidable

theorem le_two_of_starts {a : Ipv4Address} {k : ℕ} (h : n.Starts now a k) : k ≤ 2 := by
  rcases h with ⟨-, rfl⟩ | ⟨-, rfl⟩ <;> decide

theorem pos_of_path {edge : Ipv4Address → Ipv4Address → Prop} {a : Ipv4Address} {k : ℕ}
    (h : Path (n.Starts now) edge a k) : 0 < k := by
  cases h with
  | start hs => rcases hs with ⟨-, rfl⟩ | ⟨-, rfl⟩ <;> decide
  | edge => exact Nat.succ_pos _

theorem neighbor_of_path {edge : Ipv4Address → Ipv4Address → Prop} {a : Ipv4Address}
    (h : Path (n.Starts now) edge a 1) : n.Neighbor now a := by
  generalize hk : 1 = k at h
  cases h with
  | start hs =>
    rcases hs with ⟨hneigh, -⟩ | ⟨-, rfl⟩
    · exact hneigh
    · exact absurd hk (by decide)
  | edge hpath =>
    have hpos := pos_of_path hpath
    omega

/-- The table in the search for distance `h + 1`. -/
structure Searched (n : RoutingProtocol) (now : ℤ) (h : ℕ) (t : Table) : Prop where
  /-- The paths of up to `h` hops. -/
  explored : Explored (n.Starts now) (n.Beyond now) t.dist h
  two_le : 2 ≤ h
  tied : Tied t

theorem Direct.searched {t : Table} (h₁ : Direct n now n.state.neighborSet t) (hseparate : n.Separate now) :
    Searched n now 2 (n.state.twoHopNeighborSet.foldl n.addTwoHop t) := by
  obtain ⟨hkept, hentries, hfound⟩ := foldl_addTwoHop h₁ hseparate n.state.twoHopNeighborSet fun _ htuple => htuple
  refine ⟨⟨fun a k hk => ?_, fun a k hk => ?_, fun a k hpath hle => ?_⟩, le_refl _, fun a e he => ?_⟩
  · obtain ⟨e, he, rfl⟩ := dist_eq_some.mp hk
    obtain ⟨-, -, hold | ⟨hdistance, hthrough⟩⟩ := hentries a e he
    · exact .start (.inl ⟨(h₁.entries a).mp (by rw [hold]; rfl), h₁.distance a e hold⟩)
    · exact .start (.inr ⟨hthrough, hdistance⟩)
  · obtain ⟨e, he, rfl⟩ := dist_eq_some.mp hk
    obtain ⟨-, -, hold | ⟨hdistance, -⟩⟩ := hentries a e he
    · rw [h₁.distance a e hold]
      decide
    · exact le_of_eq hdistance
  · have hone : n.Neighbor now a → ∃ e, n.state.twoHopNeighborSet.foldl n.addTwoHop t a = some e ∧ e.distance = 1 := by
      intro hneigh
      obtain ⟨e, he⟩ := Option.isSome_iff_exists.mp ((h₁.entries a).mpr hneigh)
      exact ⟨e, hkept a e he, h₁.distance a e he⟩
    cases hpath with
    | start hs =>
      rcases hs with ⟨hneigh, rfl⟩ | ⟨⟨tuple, htuple, hthrough⟩, rfl⟩
      · exact ⟨1, le_refl _, dist_eq_some.mpr (hone hneigh)⟩
      · obtain ⟨e, he⟩ := Option.isSome_iff_exists.mp (hfound tuple htuple a hthrough)
        refine ⟨e.distance, ?_, dist_eq_some.mpr ⟨e, he, rfl⟩⟩
        obtain ⟨-, -, hold | ⟨hdistance, -⟩⟩ := hentries a e he
        · rw [h₁.distance a e hold]
          decide
        · exact le_of_eq hdistance
    | @edge _ b k hpath hbeyond =>
      -- an edge is not from a neighbour
      have hpos := pos_of_path hpath
      obtain rfl : k = 1 := by omega
      exact absurd (neighbor_of_path hpath) hbeyond.1
  · obtain ⟨hdest, hleads, -⟩ := hentries a e he
    exact ⟨hdest, hleads.mono hkept⟩

/-- An entry at a distance of two or more is not that of a neighbour. -/
theorem Searched.not_neighbor {h : ℕ} {t : Table} (hs : Searched n now h t) {b : Ipv4Address}
    (hb : t.dist b = some h) : ¬ n.Neighbor now b := by
  intro hneigh
  have htwo := hs.two_le
  obtain ⟨k, hk, hdist⟩ := hs.explored.reached b 1 (.start (.inl ⟨hneigh, rfl⟩)) (by omega)
  have heq := Option.some.inj (hb.symm.trans hdist)
  omega

theorem Searched.layer {h : ℕ} {t : Table} (hs : Searched n now h t) :
    let x := n.state.topologySet.foldl (addTopology h) (t, false)
    Layer (n.Beyond now) t.dist x.1.dist h := by
  have hpass := foldl_addTopology h t n.state.topologySet
  refine ⟨fun a k hk => ?_, fun a k hk => ?_, fun a b hb hbeyond => ?_⟩
  · obtain ⟨e, he, hdistance⟩ := dist_eq_some.mp hk
    exact dist_eq_some.mpr ⟨e, hpass.kept a e he, hdistance⟩
  · obtain ⟨e, he, rfl⟩ := dist_eq_some.mp hk
    rcases hpass.new a e he with hold | ⟨-, hdistance, tuple, htuple, hdest, last, hlast, hh, -⟩
    · exact .inl (dist_eq_some.mpr ⟨e, hold, rfl⟩)
    · have hb : t.dist tuple.lastAddr = some h := dist_eq_some.mpr ⟨last, hlast, hh⟩
      exact .inr ⟨hdistance, tuple.lastAddr, hb, hs.not_neighbor hb, tuple, htuple, rfl, hdest⟩
  · obtain ⟨last, hlast, hh⟩ := dist_eq_some.mp hb
    obtain ⟨-, tuple, htuple, rfl, rfl⟩ := hbeyond
    have hsome := hpass.next tuple htuple last hlast hh
    simpa [Table.dist] using hsome

/-- The table after the topology tuples. -/
theorem Searched.addTopologies {fuel h : ℕ} {t t' : Table} (hs : Searched n now h t)
    (hrun : t.addTopologies n.state.topologySet fuel h = some t') :
    Tied t' ∧ ∀ a k, t'.dist a = some k ↔ Shortest (n.Starts now) (n.Beyond now) a k := by
  induction fuel generalizing h t with
  | zero => exact absurd hrun nofun
  | succ fuel ih =>
    have hpass := foldl_addTopology h t n.state.topologySet
    have hlayer := hs.layer
    have htwo := hs.two_le
    have hstarts : ∀ a k, n.Starts now a k → k ≤ h := fun a k hstart => (le_two_of_starts hstart).trans htwo
    rw [addTopologies_succ] at hrun
    dsimp only at hrun hlayer
    generalize n.state.topologySet.foldl (addTopology h) (t, false) = x at hpass hlayer hrun
    split_ifs at hrun with hadded
    · exact ih ⟨hs.explored.layer hstarts hlayer, by omega, hpass.tied hs.tied⟩ hrun
    · cases hrun
      have hsame : x.1 = t := hpass.same (Bool.eq_false_iff.mpr hadded)
      rw [hsame] at hlayer ⊢
      exact ⟨hs.tied, fun a k => hs.explored.shortest hstarts hlayer.next⟩

/-- A table has the shortest paths: an entry for each main address that a path leads to, none for the node's own
addresses, and an entry to send by for each entry. -/
structure HasShortestPaths (n : RoutingProtocol) (now : ℤ) (edge : Ipv4Address → Ipv4Address → Prop)
    (own : Ipv4Address → Prop) (t : Table) : Prop where
  distance : ∀ a k, n.IsMain a → a ≠ n.mainAddress →
    ((∃ e, t a = some e ∧ e.distance = k) ↔ Shortest (n.Starts now) edge a k)
  own : ∀ a, own a → t a = none
  send : ∀ a e, t a = some e → ∃ fuel e', t.findSendEntry fuel e = some (some e') ∧ e'.destAddr = e'.nextAddr

/-- The own addresses. -/
def Own (n : RoutingProtocol) (a : Ipv4Address) : Prop := ∃ addresses ∈ n.addresses, a ∈ addresses

/-- An own address that no tuple leads to. -/
def OwnUnnamed (n : RoutingProtocol) (now : ℤ) (a : Ipv4Address) : Prop :=
  n.Own a ∧ n.IsMain a ∧ ¬ ∃ k, Path (n.Starts now) (n.Beyond now) a k

theorem routingTableComputation_isSome (n : RoutingProtocol) (now : ℤ) :
    (n.routingTableComputation now (n.state.topologySet.length + 1)).isSome := by
  rw [routingTableComputation, Option.isSome_map]
  exact addTopologies_isSome _ (Nat.lt_succ_of_le (List.length_filter_le _ _))

theorem routingTableComputation_mono {fuel fuel' : ℕ} {t : Table}
    (h : n.routingTableComputation now fuel = some t) (hle : fuel ≤ fuel') :
    n.routingTableComputation now fuel' = some t := by
  rw [routingTableComputation, Option.map_eq_some_iff] at h ⊢
  obtain ⟨t', hrun, rfl⟩ := h
  exact ⟨t', addTopologies_mono _ hrun hle, rfl⟩

/-- The table that is computed has the shortest paths, with those topology tuples that are not from neighbours, when the
2-hop tuples are apart from the neighbours. -/
theorem routingTableComputation_shortestPaths (n : RoutingProtocol) (now : ℤ) :
    ∃ fuel t, n.routingTableComputation now fuel = some t ∧
      (n.Separate now → n.HasShortestPaths now (n.Beyond now) (n.OwnUnnamed now) t) := by
  obtain ⟨t, ht⟩ := Option.isSome_iff_exists.mp (n.routingTableComputation_isSome now)
  refine ⟨_, t, ht, fun hseparate => ?_⟩
  rw [routingTableComputation, Option.map_eq_some_iff] at ht
  obtain ⟨t', hrun, rfl⟩ := ht
  obtain ⟨htied, hdist⟩ := (Direct.searched (foldl_addNeighbor n.state.neighborSet) hseparate).addTopologies hrun
  have hassoc := foldl_addIfaceAssoc t' n.state.ifaceAssocSet
  generalize n.state.ifaceAssocSet.foldl addIfaceAssoc t' = t at hassoc ⊢
  have hsame : ∀ a, n.IsMain a → t a = t' a := by
    intro a hmain
    cases ha : t a with
    | none =>
      cases ha' : t' a with
      | none => rfl
      | some e => exact absurd ((hassoc.kept a e ha').symm.trans ha) nofun
    | some e =>
      rcases hassoc.new a e ha with hold | ⟨-, ⟨tuple, htuple, hiface, hne⟩, -⟩
      · exact hold.symm
      · exact absurd (hmain tuple htuple hiface) hne
  refine ⟨fun a k hmain _ => ?_, fun a ⟨_, hmain, hpath⟩ => ?_, fun a e he => ?_⟩
  · rw [hsame a hmain, ← dist_eq_some]
    exact hdist a k
  · rw [hsame a hmain]
    cases ha : t' a with
    | none => rfl
    | some e => exact absurd ⟨_, ((hdist a e.distance).mp (dist_eq_some.mpr ⟨e, ha, rfl⟩)).1⟩ hpath
  · obtain ⟨e', hsends⟩ := ((hassoc.tied htied) a e he).2.sends
    obtain ⟨fuel, hfind, hend⟩ := hsends.findSendEntry
    exact ⟨fuel, e', hfind, hend⟩

/-- A node with the symmetric neighbours 2 and 3 on the interfaces 12 and 13. -/
def betweenNeighbors (twoHop : List TwoHopNeighborTuple) (topology : List TopologyTuple) : RoutingProtocol where
  mainAddress := ⟨1⟩
  addresses := [[⟨1⟩]]
  state := {
    linkSet := [⟨⟨1⟩, ⟨12⟩, 10, 10, 10⟩, ⟨⟨1⟩, ⟨13⟩, 10, 10, 10⟩]
    neighborSet := [⟨⟨2⟩, .sym, 3⟩, ⟨⟨3⟩, .sym, 3⟩, ⟨⟨4⟩, .notSym, 3⟩]
    twoHopNeighborSet := twoHop
    topologySet := topology
    ifaceAssocSet := [⟨⟨12⟩, ⟨2⟩, 10⟩, ⟨⟨13⟩, ⟨3⟩, 10⟩] }

theorem exists_shortestPaths_betweenNeighbors :
    ∃ fuel t, (betweenNeighbors [⟨⟨2⟩, ⟨5⟩⟩] [⟨⟨6⟩, ⟨5⟩, 1, 10⟩]).routingTableComputation 0 fuel = some t ∧
      (betweenNeighbors [⟨⟨2⟩, ⟨5⟩⟩] [⟨⟨6⟩, ⟨5⟩, 1, 10⟩]).HasShortestPaths 0
        ((betweenNeighbors [⟨⟨2⟩, ⟨5⟩⟩] [⟨⟨6⟩, ⟨5⟩, 1, 10⟩]).Beyond 0)
        ((betweenNeighbors [⟨⟨2⟩, ⟨5⟩⟩] [⟨⟨6⟩, ⟨5⟩, 1, 10⟩]).OwnUnnamed 0) t := by
  obtain ⟨fuel, t, hrun, hshortest⟩ :=
    routingTableComputation_shortestPaths (betweenNeighbors [⟨⟨2⟩, ⟨5⟩⟩] [⟨⟨6⟩, ⟨5⟩, 1, 10⟩]) 0
  exact ⟨fuel, t, hrun, hshortest (by decide +kernel)⟩

/-- The table as it would be with all topology tuples, whatever the 2-hop tuples are. -/
def ComputesShortestPaths (n : RoutingProtocol) (now : ℤ) : Prop :=
  ∃ fuel t, n.routingTableComputation now fuel = some t ∧ n.HasShortestPaths now n.Advertises n.Own t

/-- The entry for an address in the table that is computed. -/
def entryFor (n : RoutingProtocol) (now : ℤ) (a : Ipv4Address) : Option RoutingTableEntry :=
  (n.routingTableComputation now (n.state.topologySet.length + 1)).bind fun t => t a

theorem ComputesShortestPaths.table (h : n.ComputesShortestPaths now) :
    ∃ t, n.HasShortestPaths now n.Advertises n.Own t ∧ ∀ a, t a = n.entryFor now a := by
  obtain ⟨fuel, t, hrun, hshortest⟩ := h
  obtain ⟨t', ht'⟩ := Option.isSome_iff_exists.mp (n.routingTableComputation_isSome now)
  have hmax := routingTableComputation_mono hrun (Nat.le_max_left fuel (n.state.topologySet.length + 1))
  have hmax' := routingTableComputation_mono ht' (Nat.le_max_right fuel (n.state.topologySet.length + 1))
  obtain rfl := Option.some.inj (hmax.symm.trans hmax')
  refine ⟨t, hshortest, fun a => ?_⟩
  rw [entryFor, ht', Option.bind_some]

theorem findSendEntry_back {t : Table} {e₁ e₂ : RoutingTableEntry} (h₁ : e₁.destAddr ≠ e₁.nextAddr)
    (h₂ : e₂.destAddr ≠ e₂.nextAddr) (hnext₁ : t e₁.nextAddr = some e₂) (hnext₂ : t e₂.nextAddr = some e₁)
    (fuel : ℕ) : t.findSendEntry fuel e₁ = none ∧ t.findSendEntry fuel e₂ = none := by
  induction fuel with
  | zero => exact ⟨rfl, rfl⟩
  | succ fuel ih =>
    constructor
    · rw [findSendEntry, if_pos h₁, hnext₁]
      exact ih.2
    · rw [findSendEntry, if_pos h₂, hnext₂]
      exact ih.1

/-- A topology tuple from a neighbour is left out, and one that names the node itself is not. A 2-hop tuple may
overwrite the entry for a neighbour's interface, so that a search never ends, and may be through a neighbour that is not
symmetric. -/
theorem not_computesShortestPaths :
    (¬ (betweenNeighbors [] [⟨⟨5⟩, ⟨2⟩, 1, 10⟩]).ComputesShortestPaths 0) ∧
    (¬ (betweenNeighbors [⟨⟨2⟩, ⟨5⟩⟩] [⟨⟨1⟩, ⟨5⟩, 1, 10⟩]).ComputesShortestPaths 0) ∧
    (¬ (betweenNeighbors [⟨⟨2⟩, ⟨13⟩⟩, ⟨⟨3⟩, ⟨12⟩⟩] []).ComputesShortestPaths 0) ∧
    ¬ (betweenNeighbors [⟨⟨2⟩, ⟨4⟩⟩, ⟨⟨4⟩, ⟨5⟩⟩] []).ComputesShortestPaths 0 := by
  refine ⟨fun h => ?_, fun h => ?_, fun h => ?_, fun h => ?_⟩
  · obtain ⟨t, hshortest, htable⟩ := h.table
    have hnone : t ⟨5⟩ = none := (htable _).trans (by decide +kernel)
    have hpath : Shortest ((betweenNeighbors [] [⟨⟨5⟩, ⟨2⟩, 1, 10⟩]).Starts 0)
        (betweenNeighbors [] [⟨⟨5⟩, ⟨2⟩, 1, 10⟩]).Advertises ⟨5⟩ 2 := by
      refine ⟨.edge (.start (.inl ⟨by decide +kernel, rfl⟩)) ⟨_, List.mem_singleton_self _, rfl, rfl⟩, fun k hk => ?_⟩
      have hpos := pos_of_path hk
      have hne : k ≠ 1 := by
        rintro rfl
        exact absurd (neighbor_of_path hk) (by decide +kernel)
      omega
    obtain ⟨e, he, -⟩ := (hshortest.distance ⟨5⟩ 2 (by decide +kernel) (by decide)).mpr hpath
    exact absurd (hnone.symm.trans he) nofun
  · obtain ⟨t, hshortest, htable⟩ := h.table
    have hown := hshortest.own ⟨1⟩ ⟨_, List.mem_singleton_self _, List.mem_singleton_self _⟩
    rw [htable] at hown
    exact absurd hown (by decide +kernel)
  · obtain ⟨t, hshortest, htable⟩ := h.table
    have hfirst : t ⟨12⟩ = some ⟨⟨12⟩, ⟨13⟩, 0, 2⟩ := (htable _).trans (by decide +kernel)
    have hsecond : t ⟨13⟩ = some ⟨⟨13⟩, ⟨12⟩, 0, 2⟩ := (htable _).trans (by decide +kernel)
    obtain ⟨fuel, e', hfind, -⟩ := hshortest.send _ _ hfirst
    rw [(findSendEntry_back (by decide) (by decide) hsecond hfirst fuel).1] at hfind
    exact absurd hfind nofun
  · obtain ⟨t, hshortest, htable⟩ := h.table
    have hentry : t ⟨5⟩ = some ⟨⟨5⟩, ⟨12⟩, 0, 2⟩ := (htable _).trans (by decide +kernel)
    obtain ⟨hpath, -⟩ := (hshortest.distance ⟨5⟩ 2 (by decide +kernel) (by decide)).mp ⟨_, hentry, rfl⟩
    cases hpath with
    | start hs =>
      rcases hs with ⟨-, hk⟩ | ⟨hthrough, -⟩
      · exact absurd hk (by decide)
      · exact absurd hthrough (by decide +kernel)
    | edge _ hedge =>
      obtain ⟨tuple, htuple, -⟩ := hedge
      exact absurd htuple List.not_mem_nil

end RoutingProtocol

end Ns3.Olsr
