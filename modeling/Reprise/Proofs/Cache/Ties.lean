import Reprise.Proofs.Cache.Nearest

/-!
Entries at one distance. The search comes to the buckets at one distance in pairs, one from each side
of the key, and takes each pair by age. What counts first among equally near entries is therefore how
many buckets the search passes on their side before, and age only where this is the same.
-/
set_option autoImplicit false

namespace Reprise

variable {α : Type} {key : Binary64}

/-- `k` lies between the key and `k'`, or is the key, and rounded it is as far from the key. -/
def OnTheWay (key k k' : Binary64) : Prop :=
  key.distance k = key.distance k' ∧
    (k'.place < k.place ∧ k.place ≤ key.place ∨ key.place < k.place ∧ k.place < k'.place)

instance (key k k' : Binary64) : Decidable (OnTheWay key k k') := inferInstanceAs (Decidable (_ ∧ _))

theorem OnTheWay.asymm {k k' : Binary64} (h : OnTheWay key k k') : ¬ OnTheWay key k' k := by
  rintro ⟨-, back⟩
  have forth := h.2
  omega

theorem OnTheWay.side {k k' : Binary64} (h : OnTheWay key k k') :
    k.place ≤ key.place ↔ k'.place ≤ key.place := by
  have between := h.2
  omega

def ByAge (slots : List (Slot α)) : Prop := slots.Pairwise fun x y => x.seq ≤ y.seq

theorem byAge_merge {xs ys : List (Slot α)} (h : ByAge xs) (h' : ByAge ys) :
    ByAge (xs.merge ys fun x y => x.seq ≤ y.seq) := by
  have trans : ∀ x y z : Slot α, decide (x.seq ≤ y.seq) = true → decide (y.seq ≤ z.seq) = true →
      decide (x.seq ≤ z.seq) = true := by simp; omega
  have merged := List.pairwise_merge trans (by simp; omega) xs ys
  simp only [decide_eq_true_eq] at merged
  exact merged h h'

section Ranked

variable {rank : Binary64 → Nat} {n : Nat}

/-- Keys of a lower rank come first, and of one rank the older. -/
def InTurn (rank : Binary64 → Nat) (x y : Slot α) : Prop :=
  rank x.entry.key < rank y.entry.key ∨ rank x.entry.key = rank y.entry.key ∧ x.seq ≤ y.seq

/-- The keys have the ranks from `n` on. -/
def Ranked (rank : Binary64 → Nat) : Nat → List (Bucket α) → Prop
  | _, [] => True
  | n, b :: rest => rank b.key = n ∧ Ranked rank (n + 1) rest

/-- Buckets on one side of the key. -/
structure Side (rank : Binary64 → Nat) (n : Nat) (buckets : List (Bucket α)) : Prop where
  ranked : Ranked rank n buckets
  keyed : KeyedAlike buckets
  aged : ∀ b ∈ buckets, ByAge b.slots

theorem Side.tail {b : Bucket α} {rest : List (Bucket α)} (h : Side rank n (b :: rest)) :
    Side rank (n + 1) rest :=
  ⟨h.ranked.2, h.keyed.tail, fun b' mem => h.aged b' (List.mem_cons_of_mem _ mem)⟩

theorem Side.rank_head {b : Bucket α} {rest : List (Bucket α)} (h : Side rank n (b :: rest))
    {slot : Slot α} (mem : slot ∈ b.slots) : rank slot.entry.key = n :=
  h.keyed b List.mem_cons_self slot mem ▸ h.ranked.1

def TurnsFrom (rank : Binary64 → Nat) (n : Nat) (slots : List (Slot α)) : Prop :=
  slots.Pairwise (InTurn rank) ∧ ∀ slot ∈ slots, n ≤ rank slot.entry.key

theorem TurnsFrom.append {tier rest : List (Slot α)} (level : ∀ slot ∈ tier, rank slot.entry.key = n)
    (aged : ByAge tier) (later : TurnsFrom rank (n + 1) rest) :
    TurnsFrom rank n (tier ++ rest) := by
  obtain ⟨ordered, least⟩ := later
  constructor
  · refine List.pairwise_append.mpr ⟨aged.imp_of_mem fun mem mem' le => ?_, ordered, ?_⟩
    · exact Or.inr ⟨(level _ mem).trans (level _ mem').symm, le⟩
    · intro x mem y mem'
      have first := level x mem
      have second := least y mem'
      exact Or.inl (by omega)
  · intro slot mem
    cases List.mem_append.mp mem with
    | inl first => exact Nat.le_of_eq (level slot first).symm
    | inr second => exact Nat.le_of_succ_le (least slot second)

theorem turnsFrom_side {buckets : List (Bucket α)} (side : Side rank n buckets) :
    TurnsFrom rank n (buckets.flatMap Bucket.slots) := by
  induction buckets generalizing n with
  | nil => exact ⟨List.Pairwise.nil, fun slot mem => absurd mem List.not_mem_nil⟩
  | cons b rest ih =>
    exact .append (fun slot mem => side.rank_head mem) (side.aged b List.mem_cons_self) (ih side.tail)

theorem turnsFrom_outward {below above : List (Bucket α)}
    (level : ∀ b ∈ below, ∀ a ∈ above, compare (key.sub b.key) (a.key.sub key) = .eq)
    (down : Side rank n below) (up : Side rank n above) :
    TurnsFrom rank n (outward key below above).flatten := by
  fun_induction outward key below above generalizing n with
  | case1 above => exact turnsFrom_side up
  | case2 below not_nil => exact turnsFrom_side down
  | case3 b below a above lt ih =>
    rw [level b List.mem_cons_self a List.mem_cons_self] at lt
    cases lt
  | case4 b below a above gt ih =>
    rw [level b List.mem_cons_self a List.mem_cons_self] at gt
    cases gt
  | case5 b below a above eq ih =>
    -- what is left on the two sides has the ranks from `n + 1` on
    have rest := ih (fun b' mem a' mem' => level b' (List.mem_cons_of_mem _ mem) a'
      (List.mem_cons_of_mem _ mem')) down.tail up.tail
    refine .append (fun slot mem => ?_) ?_ rest
    · exact (List.mem_merge.mp mem).elim down.rank_head up.rank_head
    · exact byAge_merge (down.aged b List.mem_cons_self) (up.aged a List.mem_cons_self)

/-- In a list in which each key is on the way to all that follow, a rank that counts the keys on the
way is the place in the list. -/
theorem ranked_of_count (before : List (Bucket α)) {buckets : List (Bucket α)}
    (leads : (before ++ buckets).Pairwise fun b b' => OnTheWay key b.key b'.key)
    (count : ∀ b ∈ buckets,
      rank b.key = (before ++ buckets).countP fun b' => OnTheWay key b'.key b.key) :
    Ranked rank before.length buckets := by
  -- `before` holds the keys passed so far
  induction buckets generalizing before with
  | nil => trivial
  | cons b rest ih =>
    obtain ⟨-, from_b, to_b⟩ := List.pairwise_append.mp leads
    have passed : before.countP (fun b' => OnTheWay key b'.key b.key) = before.length :=
      List.countP_eq_length.mpr fun b' mem => by simpa using to_b b' mem b List.mem_cons_self
    have not_passed : (b :: rest).countP (fun b' => OnTheWay key b'.key b.key) = 0 := by
      refine List.countP_eq_zero.mpr fun b' mem => ?_
      rw [decide_eq_true_iff]
      intro back
      cases List.mem_cons.mp mem with
      | inl same =>
        subst same
        exact back.asymm back
      | inr later => exact back.asymm ((List.pairwise_cons.mp from_b).1 b' later)
    constructor
    · rw [count b List.mem_cons_self, List.countP_append, passed, not_passed, Nat.add_zero]
    · have joined : before ++ b :: rest = before ++ [b] ++ rest := by simp
      rw [joined] at leads count
      simpa using ih (before ++ [b]) leads fun b' mem => count b' (List.mem_cons_of_mem _ mem)

end Ranked

section Level

def atDistance (key d : Binary64) (buckets : List (Bucket α)) : List (Bucket α) :=
  buckets.filter fun b => key.distance b.key = d

theorem mem_atDistance {b : Bucket α} {buckets : List (Bucket α)} {d : Binary64} :
    b ∈ atDistance key d buckets ↔ b ∈ buckets ∧ key.distance b.key = d := by
  simp [atDistance]

variable {below above : List (Bucket α)} (d : Binary64)

theorem outward_nil (below : List (Bucket α)) : outward key below [] = below.map Bucket.slots := by
  cases below with
  | nil => rw [outward]
  | cons b rest =>
    rw [outward]
    intro nil
    cases nil

theorem filter_tier {tier : List (Slot α)} {e : Binary64}
    (level : ∀ slot ∈ tier, key.distance slot.entry.key = e) :
    (tier.filter fun slot => key.distance slot.entry.key = d) = if e = d then tier else [] := by
  split
  · rename_i there
    exact List.filter_eq_self.mpr fun slot mem => by simpa [level slot mem] using there
  · rename_i elsewhere
    exact List.filter_eq_nil_iff.mpr fun slot mem => by simpa [level slot mem] using elsewhere

theorem KeyedAlike.level_head {b : Bucket α} {rest : List (Bucket α)} (h : KeyedAlike (b :: rest))
    (slot : Slot α) (mem : slot ∈ b.slots) : key.distance slot.entry.key = key.distance b.key :=
  congrArg key.distance (h b List.mem_cons_self slot mem)

theorem filter_flatMap_slots {buckets : List (Bucket α)} (keyed : KeyedAlike buckets) :
    ((buckets.flatMap Bucket.slots).filter fun slot => key.distance slot.entry.key = d) =
      (atDistance key d buckets).flatMap Bucket.slots := by
  induction buckets with
  | nil => rfl
  | cons b rest ih =>
    rw [List.flatMap_cons, List.filter_append, filter_tier d keyed.level_head, ih keyed.tail,
      atDistance, atDistance, List.filter_cons]
    split <;> simp [*]

theorem atDistance_eq_nil {buckets : List (Bucket α)} {k : Binary64}
    (nearer : ∀ b ∈ buckets, (key.distance k).place < (key.distance b.key).place) :
    atDistance key (key.distance k) buckets = [] := by
  refine List.filter_eq_nil_iff.mpr fun b mem => ?_
  rw [decide_eq_true_iff]
  intro same
  have less := nearer b mem
  rw [same] at less
  exact absurd less (Int.lt_irrefl _)

theorem atDistance_cons_of_eq {b : Bucket α} (there : key.distance b.key = d)
    (rest : List (Bucket α)) : atDistance key d (b :: rest) = b :: atDistance key d rest :=
  List.filter_cons_of_pos (by simpa using there)

theorem atDistance_cons_of_ne {b : Bucket α} (elsewhere : key.distance b.key ≠ d)
    (rest : List (Bucket α)) : atDistance key d (b :: rest) = atDistance key d rest :=
  List.filter_cons_of_neg (by simpa using elsewhere)

theorem Recedes.farther {b : Bucket α} {rest : List (Bucket α)} {k : Binary64}
    (h : Recedes key (b :: rest)) (less : (key.distance k).place < (key.distance b.key).place) :
    ∀ b' ∈ b :: rest, (key.distance k).place < (key.distance b'.key).place :=
  fun b' mem => Int.lt_of_lt_of_le less (h.asNear (Int.le_refl _) b' mem)

/-- What the search takes at one distance it takes of the buckets at that distance. -/
theorem filter_outward (down : LeadsDown key below) (up : LeadsUp key above) :
    ((outward key below above).flatten.filter fun slot => key.distance slot.entry.key = d) =
      (outward key (atDistance key d below) (atDistance key d above)).flatten := by
  fun_induction outward key below above with
  | case1 above =>
    rw [atDistance, List.filter_nil, outward]
    exact filter_flatMap_slots d up.keyed
  | case2 below not_nil =>
    rw [atDistance, atDistance, List.filter_nil, outward_nil]
    exact filter_flatMap_slots d down.keyed
  | case3 b below a above lt ih =>
    have nearer := Binary64.compare_eq_lt.mp (compare_ends down up ▸ lt)
    rw [List.flatten_cons, List.filter_append, filter_tier d down.keyed.level_head, ih down.tail up]
    by_cases there : key.distance b.key = d
    · -- all that is above is farther
      subst there
      rw [atDistance_eq_nil (up.recedes.farther nearer), atDistance_cons_of_eq _ rfl, outward_nil,
        outward_nil, if_pos rfl]
      rfl
    · rw [if_neg there, List.nil_append, atDistance_cons_of_ne d there]
  | case4 b below a above gt ih =>
    have nearer := Binary64.compare_eq_gt.mp (compare_ends down up ▸ gt)
    rw [List.flatten_cons, List.filter_append, filter_tier d up.keyed.level_head, ih down up.tail]
    by_cases there : key.distance a.key = d
    · subst there
      rw [atDistance_eq_nil (down.recedes.farther nearer), atDistance_cons_of_eq _ rfl, outward,
        outward, if_pos rfl]
      rfl
    · rw [if_neg there, List.nil_append, atDistance_cons_of_ne d there]
  | case5 b below a above eq ih =>
    have same := Binary64.compare_eq_eq.mp (compare_ends down up ▸ eq)
    have level : ∀ slot ∈ b.slots.merge a.slots fun x y => x.seq ≤ y.seq,
        key.distance slot.entry.key = key.distance b.key := by
      intro slot mem
      cases List.mem_merge.mp mem with
      | inl lower => exact down.keyed.level_head slot lower
      | inr upper => exact (up.keyed.level_head slot upper).trans same.symm
    rw [List.flatten_cons, List.filter_append, filter_tier d level, ih down.tail up.tail]
    by_cases there : key.distance b.key = d
    · rw [if_pos there, atDistance_cons_of_eq d there, atDistance_cons_of_eq d (same ▸ there), outward,
        eq, List.flatten_cons]
    · rw [if_neg there, atDistance_cons_of_ne d there, atDistance_cons_of_ne d (same ▸ there),
        List.nil_append]

end Level

namespace Cache

def ahead (c : Cache α) (key k : Binary64) : Nat := c.buckets.countP fun b => OnTheWay key b.key k

theorem side_atDistance {c : Cache α} {buckets others : List (Bucket α)} (d : Binary64)
    (split : c.buckets.Perm (buckets ++ others)) (keyed : KeyedAlike buckets)
    (aged : ∀ b ∈ c.buckets, ByAge b.slots)
    (leads : buckets.Pairwise fun b b' =>
      key.distance b.key = key.distance b'.key → OnTheWay key b.key b'.key)
    (apart : ∀ b ∈ buckets, ∀ a ∈ others, ¬ OnTheWay key a.key b.key) :
    Side (c.ahead key) 0 (atDistance key d buckets) := by
  have level {b : Bucket α} (mem : b ∈ atDistance key d buckets) := mem_atDistance.mp mem
  have leads_level : (atDistance key d buckets).Pairwise fun b b' => OnTheWay key b.key b'.key :=
    (leads.filter _).imp_of_mem fun mem mem' way => way ((level mem).2.trans (level mem').2.symm)
  refine ⟨ranked_of_count [] leads_level fun b mem => ?_, fun b mem => keyed b (level mem).1,
    fun b mem => aged b (split.mem_iff.mpr (List.mem_append_left _ (level mem).1))⟩
  have none_apart : others.countP (fun a => OnTheWay key a.key b.key) = 0 :=
    List.countP_eq_zero.mpr fun a mem' => by simpa using apart b (level mem).1 a mem'
  rw [ahead, split.countP_eq, List.countP_append, none_apart, Nat.add_zero, List.nil_append,
    atDistance, List.countP_filter]
  refine List.countP_congr fun b' _ => ?_
  rw [Bool.and_eq_true, decide_eq_true_iff, decide_eq_true_iff, iff_self_and]
  exact fun way => way.1.trans (level mem).2

/-- Among entries at one distance the search comes first to the one with fewer keys ahead, then to the
older one. -/
theorem inTurn_of_outward {c : Cache α} {below above : List (Bucket α)} {x y : Slot α}
    (down : LeadsDown key below) (up : LeadsUp key above)
    (split : c.buckets.Perm (below ++ above))
    (aged : ∀ b ∈ c.buckets, ByAge b.slots)
    (descending : below.Pairwise fun b b' => b'.key.place < b.key.place) (ascending : InKeyOrder above)
    (before : [x, y].Sublist (outward key below above).flatten)
    (tie : key.distance x.entry.key = key.distance y.entry.key) : InTurn (c.ahead key) x y := by
  have apart : ∀ b ∈ below, ∀ a ∈ above, ¬ a.key.place ≤ key.place ∧ b.key.place ≤ key.place :=
    fun b mem a mem' => ⟨Int.not_le.mpr (up.side a mem'), down.side b mem⟩
  have side_down : Side (c.ahead key) 0 (atDistance key (key.distance x.entry.key) below) := by
    refine side_atDistance _ split down.keyed aged ?_ fun b mem a mem' way => ?_
    · exact descending.imp_of_mem fun mem _ less same => ⟨same, Or.inl ⟨less, down.side _ mem⟩⟩
    · exact (apart b mem a mem').1 (way.side.mpr (apart b mem a mem').2)
  have side_up : Side (c.ahead key) 0 (atDistance key (key.distance x.entry.key) above) := by
    refine side_atDistance _ (split.trans List.perm_append_comm) up.keyed aged ?_
      fun a mem b mem' way => ?_
    · exact ascending.imp_of_mem fun mem _ less same => ⟨same, Or.inr ⟨up.side _ mem, less⟩⟩
    · exact (apart b mem' a mem).1 (way.side.mp (apart b mem' a mem).2)
  have level : ∀ b ∈ atDistance key (key.distance x.entry.key) below,
      ∀ a ∈ atDistance key (key.distance x.entry.key) above,
      compare (key.sub b.key) (a.key.sub key) = .eq := by
    intro b mem a mem'
    obtain ⟨low, at_b⟩ := mem_atDistance.mp mem
    obtain ⟨high, at_a⟩ := mem_atDistance.mp mem'
    rw [← Binary64.distance_of_le (down.side b low), ← Binary64.distance_of_lt (up.side a high), at_b,
      at_a]
    exact Binary64.compare_eq_eq.mpr rfl
  have both : [x, y].filter (fun slot => key.distance slot.entry.key = key.distance x.entry.key) =
      [x, y] := List.filter_eq_self.mpr (by simp [tie])
  have turns := (turnsFrom_outward level side_down side_up).1
  rw [← filter_outward _ down up] at turns
  exact List.pairwise_iff_forall_sublist.mp turns (both ▸ before.filter _)

section Passed

variable {entries : List (Entry α)} (finite : key.isFinite = true)
  (numbers : ∀ e ∈ entries, e.key.isNaN = false)

include finite numbers

theorem inTurn_of_passed {x y : Slot α} (before : [x, y].Sublist ((ofEntries entries).passed key))
    (tie : key.distance x.entry.key = key.distance y.entry.key) :
    InTurn ((ofEntries entries).ahead key) x y := by
  have wellFormed := wellFormed_ofEntries entries
  obtain ⟨down, up⟩ := leads_ofEntries finite numbers
  have below_order := wellFormed.inKeyOrder.sublist
    (List.takeWhile_sublist fun b => decide (b.key.place ≤ key.place))
  have above_order := wellFormed.inKeyOrder.sublist
    (List.dropWhile_sublist fun b => decide (b.key.place ≤ key.place))
  refine inTurn_of_outward down up ?_ (fun b mem => (wellFormed.oldestFirst b mem).imp Nat.le_of_lt)
    (List.pairwise_reverse.mpr below_order) above_order before tie
  have parts := List.takeWhile_append_dropWhile (p := fun b => decide (b.key.place ≤ key.place))
    (l := (ofEntries entries).buckets)
  exact (List.Perm.of_eq parts.symm).trans ((List.reverse_perm _).symm.append_right _)

end Passed

section Taken

variable {β : Type} {l : List β} {x y : β}

theorem pair_sublist (hx : x ∈ l) (hy : y ∈ l) (apart : x ≠ y) :
    [x, y].Sublist l ∨ [y, x].Sublist l := by
  obtain ⟨front, rest, rfl⟩ := List.append_of_mem hx
  cases List.mem_append.mp hy with
  | inl earlier =>
    have first := List.singleton_sublist.mpr earlier
    exact Or.inr (first.append (List.singleton_sublist.mpr List.mem_cons_self))
  | inr later =>
    have later := (List.mem_cons.mp later).resolve_left apart.symm
    exact Or.inl (((List.singleton_sublist.mpr later).cons_cons x).trans (List.sublist_append_right ..))

theorem pair_sublist_take {k : Nat} (hx : x ∈ l) (apart : x ≠ y) (never : ¬ [y, x].Sublist l)
    (taken : y ∈ l.take k) : [x, y].Sublist (l.take k) := by
  by_cases first : x ∈ l.take k
  · exact (pair_sublist first taken apart).resolve_right fun back =>
      never (back.trans (List.take_sublist ..))
  · rw [← List.take_append_drop k l] at hx never
    have left := (List.mem_append.mp hx).resolve_left first
    exact absurd ((List.singleton_sublist.mpr taken).append (List.singleton_sublist.mpr left)) never

end Taken

/-- Of two entries at one distance that fit, the younger one is not returned without the older one, nor
before it, unless more keys at that distance are ahead of the older one; then the two change places. -/
theorem nearest_ties {entries : List (Entry α)} (finite : key.isFinite = true)
    (numbers : ∀ e ∈ entries, e.key.isNaN = false) (k : Nat) (limit : Option Nat)
    {older younger : Slot α} (stored : older ∈ numbered 0 entries)
    (stored' : younger ∈ numbered 0 entries) (fit : fits limit older.entry.size = true)
    (fit' : fits limit younger.entry.size = true) (earlier : older.seq < younger.seq)
    (tie : key.distance older.entry.key = key.distance younger.entry.key) :
    let c := ofEntries entries
    let near := c.nearestSlots key k limit
    (c.ahead key older.entry.key ≤ c.ahead key younger.entry.key →
        younger ∈ near → [older, younger].Sublist near) ∧
      (c.ahead key younger.entry.key < c.ahead key older.entry.key →
        older ∈ near → [younger, older].Sublist near) := by
  intro c near
  have fitting {slot : Slot α} (mem : slot ∈ numbered 0 entries)
      (fit : fits limit slot.entry.size = true) :
      slot ∈ (c.passed key).filter fun slot => fits limit slot.entry.size :=
    List.mem_filter.mpr ⟨(perm_passed_ofEntries entries key).mem_iff.mpr mem, fit⟩
  have apart : older ≠ younger := fun same => absurd earlier (same ▸ Nat.lt_irrefl _)
  constructor
  · intro fewer
    refine pair_sublist_take (fitting stored fit) apart fun back => ?_
    have turn : InTurn (c.ahead key) younger older :=
      inTurn_of_passed finite numbers (back.trans List.filter_sublist) tie.symm
    obtain less | ⟨-, le⟩ := turn <;> omega
  · intro more
    refine pair_sublist_take (fitting stored' fit') apart.symm fun forth => ?_
    have turn : InTurn (c.ahead key) older younger :=
      inTurn_of_passed finite numbers (forth.trans List.filter_sublist) tie
    obtain less | ⟨same, -⟩ := turn <;> omega

section Samples

def sized (seq : Nat) (key : Binary64) : Slot Unit := ⟨seq, ⟨key, 1, ()⟩⟩

/-- From 5 the keys 6 and 4 are equally far. -/
theorem six_before_four :
    let slots := [sized 0 (.ofInt 6), sized 1 (.ofInt 4), sized 2 (.ofInt 4), sized 3 (.ofInt 6)]
    [sized 0 (.ofInt 6), sized 1 (.ofInt 4)].Sublist
      ((ofEntries (slots.map Slot.entry)).nearestSlots (.ofInt 5) 2 none) := by
  intro slots
  have finite : (Binary64.ofInt 5).isFinite = true := by decide +kernel
  have numbers : ∀ e ∈ slots.map Slot.entry, e.key.isNaN = false := by decide +kernel
  have stored : sized 0 (.ofInt 6) ∈ numbered 0 (slots.map Slot.entry) := by decide +kernel
  have stored' : sized 1 (.ofInt 4) ∈ numbered 0 (slots.map Slot.entry) := by decide +kernel
  have tie : (Binary64.ofInt 5).distance (.ofInt 6) = (Binary64.ofInt 5).distance (.ofInt 4) := by
    decide +kernel
  have ties := nearest_ties finite numbers 2 none stored stored' rfl rfl (by decide) tie
  refine ties.1 (by decide +kernel) ?_
  have level : compare ((Binary64.ofInt 5).sub (.ofInt 4)) ((Binary64.ofInt 6).sub (.ofInt 5)) =
      .eq := by decide +kernel
  have below : ((ofEntries (slots.map Slot.entry)).buckets.takeWhile fun b =>
      b.key.place ≤ (Binary64.ofInt 5).place).reverse =
        [⟨.ofInt 4, [sized 1 (.ofInt 4), sized 2 (.ofInt 4)]⟩] := by decide +kernel
  have above : ((ofEntries (slots.map Slot.entry)).buckets.dropWhile fun b =>
      b.key.place ≤ (Binary64.ofInt 5).place) =
        [⟨.ofInt 6, [sized 0 (.ofInt 6), sized 3 (.ofInt 6)]⟩] := by decide +kernel
  simp [nearestSlots, below, above, outward, level, sized, fits]

/-- The two zeros have one distance from 5 and are on one side of it, so the greater one comes first. -/
theorem younger_zero_alone :
    ¬ ∀ (entries : List (Entry Unit)) (key : Binary64), key.isFinite = true →
      (∀ e ∈ entries, e.key.isNaN = false) →
      ∀ (k : Nat) (limit : Option Nat) (older younger : Slot Unit),
      older ∈ numbered 0 entries → younger ∈ numbered 0 entries →
      fits limit older.entry.size = true → fits limit younger.entry.size = true →
      older.seq < younger.seq → key.distance older.entry.key = key.distance younger.entry.key →
      younger ∈ (ofEntries entries).nearestSlots key k limit →
      [older, younger].Sublist ((ofEntries entries).nearestSlots key k limit) := by
  intro claim
  have both := claim [(sized 0 (Binary64.neg 0)).entry, (sized 1 0).entry] (.ofInt 5)
    (by decide +kernel) (by decide +kernel) 1 none (sized 0 (Binary64.neg 0)) (sized 1 0)
    (by decide +kernel) (by decide +kernel) rfl rfl (by decide) (by decide +kernel)
    (by decide +kernel)
  have two : 2 ≤ 1 := Nat.le_trans both.length_le (List.length_take_le ..)
  omega

end Samples

end Cache

end Reprise
