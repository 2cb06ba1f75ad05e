import Ns3.Lib.Octets
import Mathlib.Algebra.GroupWithZero.Nat

/-!
# Parsing octets

A `Parser` takes octets from the front of a list. It fails where they end before a read does, or where a read would
store an octet outside of the array meant for it.

* `Parser.Reads r bytes a` — from `bytes`, whatever comes behind them, the parser makes `a` and stops behind them.
* `Parser.ReadsIff v r bytes a C` — it makes of them something that looks like `a` exactly if `C`, and then stops
  behind them. `ReadsIff.bind` puts two such parsers together.
* `Parser.below`, `Tiles` — parts are read until a number of octets is reached; `readsIff_below` says when these are
  the parts that were written.
* `Parser.toEnd` — parts are read up to the end of the octets.
-/

namespace Ns3.Lib

/-- Why a parser fails. -/
inductive Fault where
  /-- The octets end before the read does. -/
  | ended
  /-- An octet is stored outside of its array. -/
  | outside

/-- A program that takes octets from the front of a list. -/
abbrev Parser (α : Type) := StateT (List UInt8) (Except Fault) α

namespace Parser

variable {α β γ δ : Type}

theorem pure_apply (a : α) (l : List UInt8) : (pure a : Parser α) l = .ok (a, l) := rfl

variable {r : Parser α} {f : α → Parser β} {a : α} {l l' : List UInt8}

theorem bind_of_ok (h : r l = .ok (a, l')) : (r >>= f) l = f a l' := by
  change (r l >>= fun x => f x.1 x.2) = _
  rw [h]
  rfl

variable {b : β}

theorem bind_eq_ok {l l'' : List UInt8} :
    (r >>= f) l = .ok (b, l'') ↔ ∃ a l', r l = .ok (a, l') ∧ f a l' = .ok (b, l'') := by
  constructor
  · intro h
    cases hr : r l with
    | error e =>
      have hbind : (r >>= f) l = .error e := by
        change (r l >>= fun x => f x.1 x.2) = _
        rw [hr]
        rfl
      cases hbind.symm.trans h
    | ok x =>
      obtain ⟨a, l'⟩ := x
      rw [bind_of_ok hr] at h
      exact ⟨a, l', rfl, h⟩
  · rintro ⟨a, l', hr, hf⟩
    rw [bind_of_ok hr, hf]

theorem get_bind (f : List UInt8 → Parser α) (l : List UInt8) : (get >>= f) l = f l l := rfl

theorem map_eq_bind (f : α → β) (r : Parser α) : f <$> r = r >>= fun a => pure (f a) := rfl

/-! ### Octets -/

/-- Fails. -/
def fail (e : Fault) : Parser α := fun _ => .error e

theorem fail_ne_ok (e : Fault) (l : List UInt8) (x : α × List UInt8) : fail e l ≠ .ok x := by
  intro h
  cases h

/-- Reads one octet. -/
def octet : Parser UInt8
  | [] => .error .ended
  | b :: l => .ok (b, l)

/-- Reads `n` octets. -/
def octets (n : ℕ) : Parser (List UInt8) := fun l =>
  if n ≤ l.length then .ok (l.take n, l.drop n) else .error .ended

/-- Reads a number of `k` octets, the highest of them first. -/
def number (k : ℕ) : Parser ℕ := ofBigEndian <$> octets k

/-- Reads what is there only sometimes. -/
def optional (present : Bool) (r : Parser α) : Parser (Option α) := if present then some <$> r else pure none

/-- Reads, and counts the octets that are read. -/
def counted (r : Parser α) : Parser (α × ℕ) := do
  let front ← get
  let a ← r
  let start ← get
  pure (a, front.length - start.length)

/-- Does something a number of times. -/
def times (r : Parser α) : ℕ → Parser (List α)
  | 0 => pure []
  | n + 1 => do
    let a ← r
    let as ← times r n
    pure (a :: as)

/-! ### Reading what was written -/

/-- From `bytes`, whatever comes behind them, the parser makes `a`, and it stops behind them. -/
def Reads (r : Parser α) (bytes : List UInt8) (a : α) : Prop := ∀ rest, r (bytes ++ rest) = .ok (a, rest)

theorem Reads.pure (a : α) : Reads (pure a) [] a := fun _ => rfl

theorem Reads.bind {bytes bytes' : List UInt8} (hr : r.Reads bytes a) (hf : (f a).Reads bytes' b) :
    (r >>= f).Reads (bytes ++ bytes') b := by
  intro rest
  rw [List.append_assoc, bind_of_ok (hr _), hf]

variable {bytes : List UInt8}

theorem Reads.map (hr : r.Reads bytes a) (f : α → β) : (f <$> r).Reads bytes (f a) := by
  intro rest
  rw [map_eq_bind, bind_of_ok (hr rest), pure_apply]

theorem reads_octet (b : UInt8) : octet.Reads [b] b := fun _ => rfl

theorem reads_octets {n : ℕ} (h : bytes.length = n) : (octets n).Reads bytes bytes := by
  intro rest
  rw [octets, if_pos (by rw [List.length_append]; omega), List.take_left' h, List.drop_left' h]

theorem length_of_octets {n : ℕ} {l l' bytes : List UInt8} (h : octets n l = .ok (bytes, l')) :
    bytes.length = n := by
  rw [octets] at h
  split at h
  · cases h
    exact List.length_take_of_le ‹_›
  · cases h

theorem reads_number (k n : ℕ) : (number k).Reads (bigEndian k n) (n % 256 ^ k) := by
  have h := (reads_octets (length_bigEndian k n)).map ofBigEndian
  rwa [ofBigEndian_bigEndian] at h

theorem reads_optional {w : α → List UInt8} {o : Option α} (hr : ∀ a, o = some a → r.Reads (w a) a) :
    (optional o.isSome r).Reads (o.elim [] w) o := by
  cases o with
  | none => exact .pure none
  | some a => exact (hr a rfl).map some

theorem reads_times {r : Parser β} {w : α → List UInt8} {f : α → β} (as : List α)
    (hr : ∀ a ∈ as, r.Reads (w a) (f a)) : (times r as.length).Reads (as.flatMap w) (as.map f) := by
  induction as with
  | nil => exact .pure []
  | cons a as ih =>
    have htail := ih fun b hb => hr b (List.mem_cons_of_mem _ hb)
    have hcons : (times r as.length >>= fun bs => (pure (f a :: bs) : Parser (List β))).Reads
        (as.flatMap w ++ []) (f a :: as.map f) := htail.bind (Reads.pure (f a :: as.map f))
    rw [List.append_nil] at hcons
    exact (hr a List.mem_cons_self).bind hcons

theorem mem_of_times {n : ℕ} {as : List α} {P : α → Prop} (hr : ∀ l a l', r l = .ok (a, l') → P a)
    (h : times r n l = .ok (as, l')) : ∀ a ∈ as, P a := by
  induction n generalizing l l' as with
  | zero =>
    cases h
    exact fun a ha => absurd ha List.not_mem_nil
  | succ n ih =>
    obtain ⟨a, l₁, ha, h⟩ := bind_eq_ok.mp h
    obtain ⟨as', l₂, hrest, h⟩ := bind_eq_ok.mp h
    cases h
    intro b hb
    rcases List.mem_cons.mp hb with rfl | hb
    · exact hr _ _ _ ha
    · exact ih hrest b hb

/-- From `bytes`, whatever comes behind them, the parser makes something that looks like `a` exactly if `C`, and then
stops behind them. -/
def ReadsIff (v : α → β) (r : Parser α) (bytes : List UInt8) (a : α) (C : Prop) : Prop :=
  ∀ rest rest', (∃ b, r (bytes ++ rest) = .ok (b, rest') ∧ v b = v a) ↔ C ∧ rest' = rest

theorem Reads.readsIff {b : α} (h : r.Reads bytes b) (v : α → β) (a : α) : ReadsIff v r bytes a (v b = v a) := by
  intro rest rest'
  rw [h rest]
  constructor
  · rintro ⟨b, hb, hv⟩
    cases hb
    exact ⟨hv, rfl⟩
  · rintro ⟨hv, rfl⟩
    exact ⟨b, rfl, hv⟩

theorem ReadsIff.congr {v : α → β} {C C' : Prop} (h : ReadsIff v r bytes a C) (hC : C ↔ C') :
    ReadsIff v r bytes a C' := fun rest rest' => by
  rw [h rest rest', hC]

theorem readsIff_fail (v : β → γ) (e : Fault) (f : α → Parser β) (bytes : List UInt8) (b : β) :
    ReadsIff v (fail e >>= f) bytes b False := by
  intro rest rest'
  refine iff_of_false ?_ fun h => h.1
  rintro ⟨b', h, -⟩
  obtain ⟨a, l, ha, -⟩ := bind_eq_ok.mp h
  exact fail_ne_ok _ _ _ ha

/-- A first part is always read. -/
theorem Reads.bind_readsIff {v : β → γ} {bytes bytes' : List UInt8} {C : Prop} (hr : r.Reads bytes a)
    (hf : ReadsIff v (f a) bytes' b C) : ReadsIff v (r >>= f) (bytes ++ bytes') b C := by
  intro rest rest'
  rw [List.append_assoc, bind_of_ok (hr _)]
  exact hf rest rest'

/-- Two parts, the first of which is seen in the result of both. -/
theorem ReadsIff.bind {v : α → γ} {w : β → δ} {bytes bytes' : List UInt8} {C C' : Prop} (hr : ReadsIff v r bytes a C)
    (hf : ∀ a', v a' = v a → ReadsIff w (f a') bytes' b C')
    (hseen : ∀ a' l b' l', f a' l = .ok (b', l') → w b' = w b → v a' = v a) :
    ReadsIff w (r >>= f) (bytes ++ bytes') b (C ∧ C') := by
  intro rest rest'
  rw [List.append_assoc]
  constructor
  · rintro ⟨b', h, hw⟩
    obtain ⟨a', l', ha', hb'⟩ := bind_eq_ok.mp h
    have hv := hseen a' l' b' rest' hb' hw
    obtain ⟨hC, rfl⟩ := (hr _ l').mp ⟨a', ha', hv⟩
    obtain ⟨hC', rfl⟩ := (hf a' hv rest rest').mp ⟨b', hb', hw⟩
    exact ⟨⟨hC, hC'⟩, rfl⟩
  · rintro ⟨⟨hC, hC'⟩, rfl⟩
    obtain ⟨a', ha', hv⟩ := (hr (bytes' ++ rest') _).mpr ⟨hC, rfl⟩
    obtain ⟨b', hb', hw⟩ := (hf a' hv rest' rest').mpr ⟨hC', rfl⟩
    exact ⟨b', bind_eq_ok.mpr ⟨a', _, ha', hb'⟩, hw⟩

/-- The result of one part. -/
theorem ReadsIff.map {v : α → γ} {w : β → δ} {C : Prop} (hr : ReadsIff v r bytes a C) (f : α → β)
    (hf : ∀ a', w (f a') = w b ↔ v a' = v a) : ReadsIff w (r >>= fun a' => pure (f a')) bytes b C := by
  intro rest rest'
  rw [← hr rest rest']
  constructor
  · rintro ⟨b', h, hw⟩
    obtain ⟨a', l', ha', hb'⟩ := bind_eq_ok.mp h
    cases hb'
    exact ⟨a', ha', (hf a').mp hw⟩
  · rintro ⟨a', ha', hv⟩
    exact ⟨f a', bind_eq_ok.mpr ⟨a', rest', ha', rfl⟩, (hf a').mpr hv⟩

theorem counted_of_ok (h : r l = .ok (a, l')) : counted r l = .ok ((a, l.length - l'.length), l') := by
  rw [counted, get_bind, bind_of_ok h, get_bind, pure_apply]

theorem counted_eq_ok {x : α × ℕ} (h : counted r l = .ok (x, l')) :
    r l = .ok (x.1, l') ∧ x.2 = l.length - l'.length := by
  rw [counted, get_bind] at h
  obtain ⟨a, l₁, ha, h⟩ := bind_eq_ok.mp h
  rw [get_bind] at h
  cases h
  exact ⟨ha, rfl⟩

theorem Reads.counted (hr : r.Reads bytes a) : (counted r).Reads bytes (a, bytes.length) := by
  intro rest
  rw [counted_of_ok (hr rest), List.length_append, Nat.add_sub_cancel]

/-- Two parts, the second of which is told how many octets the first had. -/
theorem ReadsIff.bind_counted {v : α → γ} {w : β → δ} {f : α × ℕ → Parser β} {bytes bytes' : List UInt8} {C C' : Prop}
    (hr : ReadsIff v r bytes a C) (hf : ∀ a', v a' = v a → ReadsIff w (f (a', bytes.length)) bytes' b C')
    (hseen : ∀ x l b' l', f x l = .ok (b', l') → w b' = w b → v x.1 = v a) :
    ReadsIff w (counted r >>= f) (bytes ++ bytes') b (C ∧ C') := by
  have hcount : ∀ rest, (bytes ++ (bytes' ++ rest)).length - (bytes' ++ rest).length = bytes.length := fun rest => by
    rw [List.length_append, Nat.add_sub_cancel]
  intro rest rest'
  rw [List.append_assoc]
  constructor
  · rintro ⟨b', h, hw⟩
    obtain ⟨⟨a', n⟩, l', hx, hb'⟩ := bind_eq_ok.mp h
    have hv := hseen _ l' b' rest' hb' hw
    obtain ⟨ha', hn⟩ := counted_eq_ok hx
    obtain ⟨hC, rfl⟩ := (hr _ l').mp ⟨a', ha', hv⟩
    obtain rfl : n = bytes.length := hn.trans (hcount rest)
    obtain ⟨hC', rfl⟩ := (hf a' hv rest rest').mp ⟨b', hb', hw⟩
    exact ⟨⟨hC, hC'⟩, rfl⟩
  · rintro ⟨⟨hC, hC'⟩, rfl⟩
    obtain ⟨a', ha', hv⟩ := (hr (bytes' ++ rest') _).mpr ⟨hC, rfl⟩
    obtain ⟨b', hb', hw⟩ := (hf a' hv rest' rest').mpr ⟨hC', rfl⟩
    have hx := counted_of_ok ha'
    rw [hcount] at hx
    exact ⟨b', bind_eq_ok.mpr ⟨_, _, hx, hb'⟩, hw⟩

/-! ### Parts up to a number of octets -/

/-- Reads parts as long as fewer than `m` octets were read, `d` of them before. -/
def upTo (r : Parser α) (m : ℕ) : ℕ → ℕ → Parser (List α)
  | 0, d => if d < m then fail .ended else pure []
  | fuel + 1, d =>
    if d < m then do
      let part ← counted r
      let parts ← upTo r m fuel (d + part.2)
      pure (part.1 :: parts)
    else pure []

/-- Reads parts as long as fewer than `m` octets were read, `d` of them before. Each part has an octet, so the octets
that are left are rounds enough. -/
def below (r : Parser α) (m d : ℕ) : Parser (List α) := do
  let start ← get
  upTo r m start.length d

end Parser

/-- Parts of the given sizes, behind `d` octets, reach `m` with the last of them. -/
def Tiles (m : ℕ) : ℕ → List ℕ → Prop
  | d, [] => m ≤ d
  | d, size :: sizes => d < m ∧ Tiles m (d + size) sizes

theorem tiles_iff {m d : ℕ} {sizes : List ℕ} :
    Tiles m d sizes ↔ m ≤ d + sizes.sum ∧ (sizes = [] ∨ d + sizes.dropLast.sum < m) := by
  induction sizes generalizing d with
  | nil => simp [Tiles]
  | cons size sizes ih =>
    cases sizes with
    | nil =>
      simp only [Tiles, List.sum_cons, List.sum_nil, List.dropLast_singleton, reduceCtorEq, false_or]
      omega
    | cons size' sizes =>
      rw [Tiles, ih]
      simp only [List.sum_cons, List.dropLast_cons_cons, reduceCtorEq, false_or]
      omega

namespace Parser

variable {α β : Type}

theorem upTo_of_le {r : Parser α} {m fuel d : ℕ} (h : ¬ d < m) (l : List UInt8) :
    upTo r m fuel d l = .ok ([], l) := by
  cases fuel <;> rw [upTo, if_neg h, pure_apply]

theorem upTo_of_lt {r : Parser α} {m fuel d : ℕ} (h : d < m) :
    upTo r m (fuel + 1) d = counted r >>= fun part => upTo r m fuel (d + part.2) >>= fun parts =>
      pure (part.1 :: parts) := by
  rw [upTo, if_pos h]

/-- The parts that are read in a round are not none. -/
theorem upTo_ne_nil {r : Parser α} {m fuel d : ℕ} (h : d < m) (l l' : List UInt8) :
    upTo r m fuel d l ≠ .ok ([], l') := by
  intro hrun
  cases fuel with
  | zero =>
    rw [upTo, if_pos h] at hrun
    exact fail_ne_ok _ _ _ hrun
  | succ fuel =>
    rw [upTo_of_lt h] at hrun
    obtain ⟨part, l₁, -, hrun⟩ := bind_eq_ok.mp hrun
    obtain ⟨parts, l₂, -, hrun⟩ := bind_eq_ok.mp hrun
    cases hrun

variable {w : α → List UInt8} {as : List α} {C : α → Prop} {v : α → β}

theorem readsIff_upTo {r : Parser α} {m : ℕ} (hr : ∀ a ∈ as, ReadsIff v r (w a) a (C a)) {fuel d : ℕ}
    (hfuel : as.length ≤ fuel) :
    ReadsIff (List.map v) (upTo r m fuel d) (as.flatMap w) as
      ((∀ a ∈ as, C a) ∧ Tiles m d (as.map fun a => (w a).length)) := by
  induction as generalizing fuel d with
  | nil =>
    intro rest rest'
    constructor
    · rintro ⟨bs, h, hbs⟩
      obtain rfl := List.map_eq_nil_iff.mp hbs
      have hd : ¬ d < m := fun hd => upTo_ne_nil hd _ _ h
      rw [List.flatMap_nil, List.nil_append, upTo_of_le hd] at h
      cases h
      exact ⟨⟨fun a ha => absurd ha List.not_mem_nil, Nat.le_of_not_lt hd⟩, rfl⟩
    · rintro ⟨⟨-, hd⟩, rfl⟩
      exact ⟨[], upTo_of_le (Nat.not_lt.mpr hd) _, rfl⟩
  | cons a as ih =>
    obtain ⟨fuel, rfl⟩ := Nat.exists_eq_succ_of_ne_zero (Nat.ne_zero_of_lt hfuel)
    by_cases hd : d < m
    · have htail := ih (fun b hb => hr b (List.mem_cons_of_mem _ hb)) (d := d + (w a).length)
        (Nat.le_of_succ_le_succ hfuel)
      have hround : ReadsIff (List.map v)
          (counted r >>= fun part => upTo r m fuel (d + part.2) >>= fun parts => pure (part.1 :: parts))
          (w a ++ as.flatMap w) (a :: as)
          (C a ∧ (∀ b ∈ as, C b) ∧ Tiles m (d + (w a).length) (as.map fun b => (w b).length)) := by
        refine (hr a List.mem_cons_self).bind_counted (fun a' hv => htail.map (a' :: ·) fun as' => ?_)
          fun x l bs l' h hmap => ?_
        · rw [List.map_cons, List.map_cons, hv, List.cons.injEq, eq_self, true_and]
        · obtain ⟨parts, l₁, -, h⟩ := bind_eq_ok.mp h
          cases h
          exact (List.cons.inj hmap).1
      rw [Nat.succ_eq_add_one, upTo_of_lt hd, List.flatMap_cons]
      refine hround.congr ?_
      rw [List.forall_mem_cons, List.map_cons, Tiles, and_iff_right hd, and_assoc]
    · intro rest rest'
      refine iff_of_false ?_ fun h => hd h.1.2.1
      rintro ⟨bs, h, hbs⟩
      rw [upTo_of_le hd] at h
      cases h
      cases hbs

/-- Parts of which each has an octet are not more than their octets. -/
theorem length_le_length_flatMap (hw : ∀ a ∈ as, w a ≠ []) : as.length ≤ (as.flatMap w).length := by
  induction as with
  | nil => exact Nat.le_refl 0
  | cons a as ih =>
    have hhead := List.length_pos_iff.mpr (hw a List.mem_cons_self)
    have htail := ih fun b hb => hw b (List.mem_cons_of_mem _ hb)
    rw [List.flatMap_cons, List.length_append, List.length_cons]
    omega

/-- Parts are read as they were written exactly if each of them is and they reach the number with the last. -/
theorem readsIff_below {r : Parser α} {m d : ℕ} (hr : ∀ a ∈ as, ReadsIff v r (w a) a (C a)) (hw : ∀ a ∈ as, w a ≠ []) :
    ReadsIff (List.map v) (below r m d) (as.flatMap w) as
      ((∀ a ∈ as, C a) ∧ Tiles m d (as.map fun a => (w a).length)) := by
  intro rest rest'
  have hlen : as.length ≤ (as.flatMap w ++ rest).length := by
    rw [List.length_append]
    exact Nat.le_add_right_of_le (length_le_length_flatMap hw)
  rw [below, get_bind]
  exact readsIff_upTo hr hlen rest rest'

/-! ### Parts up to the end -/

/-- Reads parts up to the end of the octets, or one that is not known: then the answer is `false`. -/
def upToEnd (r : Parser (Option α)) : ℕ → Parser (List α × Bool)
  | 0 => do
    match ← get with
    | [] => pure ([], true)
    | _ :: _ => fail .ended
  | fuel + 1 => do
    match ← get with
    | [] => pure ([], true)
    | _ :: _ => do
      match ← r with
      | none => pure ([], false)
      | some a => do
        let rest ← upToEnd r fuel
        pure (a :: rest.1, rest.2)

/-- Reads parts up to the end of the octets, or one that is not known: then the answer is `false`. Each part has an
octet, so the octets are rounds enough. -/
def toEnd (r : Parser (Option α)) : Parser (List α × Bool) := do
  let start ← get
  upToEnd r start.length

theorem upToEnd_nil (r : Parser (Option α)) (fuel : ℕ) : upToEnd r fuel [] = .ok (([], true), []) := by
  cases fuel <;> rfl

theorem upToEnd_of_ne_nil {r : Parser (Option α)} {fuel : ℕ} {l : List UInt8} (hl : l ≠ []) :
    upToEnd r (fuel + 1) l = (do
      match ← r with
      | none => pure ([], false)
      | some a => do
        let rest ← upToEnd r fuel
        pure (a :: rest.1, rest.2)) l := by
  cases l with
  | nil => exact absurd rfl hl
  | cons b l => rfl

/-- Parts are read as they were written exactly if each of them is. -/
theorem upToEnd_iff {r : Parser (Option α)} (hr : ∀ a ∈ as, ReadsIff (Option.map v) r (w a) (some a) (C a))
    (hw : ∀ a ∈ as, w a ≠ []) {fuel : ℕ} (hfuel : as.length ≤ fuel) :
    (∃ bs whole l, upToEnd r fuel (as.flatMap w) = .ok ((bs, whole), l) ∧ bs.map v = as.map v) ↔ ∀ a ∈ as, C a := by
  induction as generalizing fuel with
  | nil =>
    refine iff_of_true ⟨[], true, [], upToEnd_nil r fuel, rfl⟩ fun a ha => absurd ha List.not_mem_nil
  | cons a as ih =>
    obtain ⟨fuel, rfl⟩ := Nat.exists_eq_succ_of_ne_zero (Nat.ne_zero_of_lt hfuel)
    have hhead := hr a List.mem_cons_self
    have htail := ih (fun b hb => hr b (List.mem_cons_of_mem _ hb)) (fun b hb => hw b (List.mem_cons_of_mem _ hb))
      (Nat.le_of_succ_le_succ hfuel)
    have hne : w a ++ as.flatMap w ≠ [] := List.append_ne_nil_of_left_ne_nil (hw a List.mem_cons_self) _
    rw [List.flatMap_cons, List.forall_mem_cons, upToEnd_of_ne_nil hne]
    constructor
    · rintro ⟨bs, whole, l, h, hbs⟩
      obtain ⟨o, l₁, ho, h⟩ := bind_eq_ok.mp h
      cases o with
      | none =>
        cases h
        cases hbs
      | some b =>
        obtain ⟨rest, l₂, hrest, h⟩ := bind_eq_ok.mp h
        cases h
        obtain ⟨hv, hmap⟩ := List.cons.inj hbs
        obtain ⟨hC, rfl⟩ := (hhead _ l₁).mp ⟨some b, ho, congrArg some hv⟩
        exact ⟨hC, htail.mp ⟨rest.1, rest.2, _, hrest, hmap⟩⟩
    · rintro ⟨hC, hCs⟩
      obtain ⟨bs, whole, l, hbs, hmap⟩ := htail.mpr hCs
      obtain ⟨o, ho, hv⟩ := (hhead (as.flatMap w) _).mpr ⟨hC, rfl⟩
      cases o with
      | none => cases hv
      | some b =>
        refine ⟨b :: bs, whole, l, ?_, by rw [List.map_cons, List.map_cons, Option.some.inj hv, hmap]⟩
        rw [bind_of_ok ho]
        change (upToEnd r fuel >>= fun rest => pure (b :: rest.1, rest.2)) (as.flatMap w) = _
        rw [bind_of_ok hbs, pure_apply]

/-- Parts are read as they were written exactly if each of them is. -/
theorem toEnd_iff {r : Parser (Option α)} (hr : ∀ a ∈ as, ReadsIff (Option.map v) r (w a) (some a) (C a))
    (hw : ∀ a ∈ as, w a ≠ []) :
    (∃ bs whole l, toEnd r (as.flatMap w) = .ok ((bs, whole), l) ∧ bs.map v = as.map v) ↔ ∀ a ∈ as, C a := by
  rw [toEnd, get_bind]
  exact upToEnd_iff hr hw (length_le_length_flatMap hw)

end Parser

end Ns3.Lib
