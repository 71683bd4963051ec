import Nsq.Proofs.Consumer.Grants

/-!
# The sums of granting credit

Credit is counted in signed words of 64 bits. A sum that leaves their range comes out wrong, or ends
the program where sums are checked. Here the operations that deal credit out are followed once more,
for the sums and differences that they evaluate on the way. `Consumer.updateSums` and its siblings
list them as numbers that no word has cut down, each with the state in which it is evaluated and
with the operation that would end the program; none would where a shared counter is changed.

The lists tell what becomes of the total and of the note of a sum that was no word
(`reckons_redistribute`). However long the way of an operation is, there are only six kinds of sums
(`Consumer.Term`), and they are evaluated while the budget is shared out (`mem_redistributeSums`).
-/

namespace Nsq.Consumer

/-- A sum that is evaluated. -/
structure Figure where
  /-- The consumer that evaluates it. -/
  state : Consumer
  /-- The sum as a number. -/
  value : Int
  /-- How a program ends that checks it; none where it is cut down to a word in any case. -/
  op : Option Overflow

variable {c c' : Consumer} {i : Nat} {conn : Connection} {n count : Int} {t : Figure}

/-- The operation by which a sum ends a program that checks it. -/
def Figure.overflow? (t : Figure) : Option Overflow := if isWord64 t.value then none else t.op

/-! ### Operations and their sums -/

/-- The sums of `sendRdy`: by how much the credit of the link changes, and the new total. -/
def sendSums (i : Nat) (n : Int) (c : Consumer) : List Figure :=
  match c.conn? i with
  | none => []
  | some conn =>
    if n = 0 ∧ conn.lastRdy = 0 then []
    else [⟨c, n - conn.rdy, some .subtract⟩, ⟨c, c.totalRdy + (n - conn.rdy), none⟩]

/-- The sums of `updateRdy`: what the budget leaves beside all links, what it leaves to the link,
and what follows if the grant is booked. -/
def updateSums (i : Nat) (count : Int) (c : Consumer) : List Figure :=
  match c.conn? i with
  | none => []
  | some conn =>
    if conn.closing then []
    else
      let count := min count conn.maxRdy
      let c := c.measure conn
      let room := c.roomFor conn.rdy
      [⟨c, c.spare c.maxInFlight, some .subtract⟩,
        ⟨c, c.spare c.maxInFlight + conn.rdy, some .add⟩] ++
        if room ≤ 0 ∧ 0 < count then []
        else c.sendSums i (if 0 < room then min room count else count)

/-- The sums of a walk along links. -/
def walkSums (step : Consumer → Nat → Consumer) (sums : Consumer → Nat → List Figure) :
    List Nat → Consumer → List Figure
  | [], _ => []
  | i :: is, c => sums c i ++ walkSums step sums is (step c i)

/-- The sums of `grantAll`. -/
def grantSums (links : List Nat) (count : Int) (c : Consumer) : List Figure :=
  walkSums (fun c i => c.grant i count) (fun c i => c.updateSums i count) links c

/-- The sums of `reclaim`. -/
def reclaimSums (links : List Nat) (c : Consumer) : List Figure :=
  walkSums (fun c i => if 0 < c.rdyOf i then c.grant i 0 else c)
    (fun c i => if 0 < c.rdyOf i then c.updateSums i 0 else []) links c

/-- The sums of `evenOut`. -/
def evenOutSums (links : List Nat) (share : Int) (c : Consumer) : List Figure :=
  let sorted := c.sortByRdy links
  let greater := sorted.filter fun i => share < c.rdyOf i
  let c' := c.grantAll greater share
  c.grantSums greater share ++ c'.grantSums (sorted.filter fun i => c'.rdyOf i < share) share

/-- The sums of `scatter`: what is left after each draw, and those of the grants. -/
def scatterSums (chance : Nat → Nat) : (n : Nat) → List Nat → Consumer → List Figure
  | 0, _, _ => []
  | n + 1, links, c =>
    let k := chance n % links.length
    match links[k]? with
    | none => []
    | some i =>
      ⟨c, n, some .subtract⟩ :: c.updateSums i 1 ++
        scatterSums chance n (links.eraseIdx k) (c.grant i 1)

/-- The sums of `scatterUpTo`. -/
def spareSums (chance : Nat → Nat) (budget : Int) (links : List Nat) (c : Consumer) :
    List Figure :=
  ⟨c, c.spare budget, some .subtract⟩ ::
    (c.check .subtract (c.spare budget)).scatterSums chance (word64 (c.spare budget)).toNat links

/-- The sums of `spreadToActive`. -/
def spreadToActiveSums (chance : Nat → Nat) (active idle : List Nat) (c : Consumer) :
    List Figure :=
  let share := evenShare c.maxInFlight active.length
  let c₁ := { c with share := share }
  let c₂ := c₁.reclaim idle
  let c₃ := c₂.evenOut active share
  c₁.reclaimSums idle ++ c₂.evenOutSums active share ++ c₃.spareSums chance c₃.maxInFlight idle

/-- The sums of `spreadToAny`. -/
def spreadToAnySums (chance : Nat → Nat) (active idle : List Nat) (c : Consumer) :
    List Figure :=
  let c₁ := { c with share := 0 }
  let c₂ := c₁.reclaim idle
  let budget := if c₂.inBackoff then 1 else c₂.maxInFlight
  c₁.reclaimSums idle ++ c₂.spareSums chance budget (active ++ idle)

/-- The sums of `redistribute`. -/
def redistributeSums (chance : Nat → Nat) (c : Consumer) : List Figure :=
  if c.inPause || c.live.isEmpty then []
  else if c.respread || c.wantsRespread then
    let c := { c with respread := false }
    let active := c.walk.filter fun i => !c.isIdle i
    let idle := c.walk.filter fun i => c.isIdle i
    if c.spreadsOnIdle && !active.isEmpty then c.spreadToActiveSums chance active idle
    else c.spreadToAnySums chance active idle
  else []

/-! ### What the sums tell -/

/-- The total of `c'` is that of `c`, or one of some sums, cut down to a word, and the first of them
that was no word, and is checked, is noted. -/
structure Reckons (sums : List Figure) (c c' : Consumer) : Prop where
  total : c'.totalRdy = c.totalRdy ∨ ∃ t ∈ sums, c'.totalRdy = word64 t.value
  overflow : c'.overflow = c.overflow.or (sums.findSome? Figure.overflow?)

namespace Reckons

variable {c'' : Consumer} {sums sums' : List Figure}

theorem of_eq (ht : c'.totalRdy = c.totalRdy) (ho : c'.overflow = c.overflow) :
    Reckons [] c c' := ⟨.inl ht, by simp [ho]⟩

theorem refl (c : Consumer) : Reckons [] c c := .of_eq rfl rfl

theorem append (h : Reckons sums c c') (h' : Reckons sums' c' c'') :
    Reckons (sums ++ sums') c c'' where
  total := by
    rcases h'.total with h' | ⟨t, ht, h'⟩
    · rcases h.total with h | ⟨t, ht, h⟩
      · exact .inl (h'.trans h)
      · exact .inr ⟨t, List.mem_append_left _ ht, h'.trans h⟩
    · exact .inr ⟨t, List.mem_append_right _ ht, h'⟩
  overflow := by
    rw [h'.overflow, h.overflow, List.findSome?_append, Option.or_assoc]

instance : Trans (Reckons sums) (Reckons sums') (Reckons (sums ++ sums')) := ⟨append⟩

/-- A sum that is only looked at. -/
theorem check (op : Overflow) (n : Int) (d c : Consumer) :
    Reckons [⟨d, n, some op⟩] c (c.check op n) where
  total := .inl rfl
  overflow := by
    rw [Consumer.check, List.findSome?_singleton, Figure.overflow?]

/-- Sums that are words leave nothing to be noted. -/
theorem overflow_eq (h : Reckons sums c c') (hwords : ∀ t ∈ sums, isWord64 t.value = true) :
    c'.overflow = c.overflow := by
  have hnone : sums.findSome? Figure.overflow? = none :=
    List.findSome?_eq_none_iff.mpr fun t ht => if_pos (hwords t ht)
  rw [h.overflow, hnone, Option.or_none]

end Reckons

theorem reckons_sendRdy (i : Nat) (n : Int) (c : Consumer) :
    Reckons (c.sendSums i n) c (c.sendRdy i n).2 := by
  unfold sendSums
  cases hi : c.conn? i with
  | none =>
    have heq : (c.sendRdy i n).2 = c := by simp [sendRdy, hi]
    rw [heq]
    exact .refl c
  | some conn =>
    dsimp only
    rcases sendRdy_cases hi n with ⟨hn, hl, h⟩ | ⟨r, h, -, hn⟩ <;> rw [h]
    · rw [if_pos ⟨hn, hl⟩]
      exact .refl c
    · rw [if_neg (not_and.mpr hn)]
      refine ⟨.inr ⟨_, List.mem_cons_of_mem _ (List.mem_singleton_self _), rfl⟩, ?_⟩
      cases hword : isWord64 (n - conn.rdy) <;>
        simp [booked, putConn, modifyLink, Consumer.check, Figure.overflow?, hword]

theorem reckons_measure (conn : Connection) (d c : Consumer) :
    Reckons [⟨d, c.spare c.maxInFlight, some .subtract⟩,
      ⟨d, c.spare c.maxInFlight + conn.rdy, some .add⟩] c (c.measure conn) :=
  calc
    Reckons [] c (c.dropRetry conn.address) := .of_eq rfl rfl
    Reckons _ _ _ := .check .subtract (c.spare c.maxInFlight) d _
    Reckons _ _ _ := .check .add (c.spare c.maxInFlight + conn.rdy) d _

theorem reckons_updateRdy (i : Nat) (count : Int) (c : Consumer) :
    Reckons (c.updateSums i count) c (c.updateRdy i count).2 := by
  unfold updateSums updateRdy
  cases c.conn? i with
  | none => exact .refl c
  | some conn =>
    dsimp only
    have hmeasure := reckons_measure conn (c.measure conn) c
    split_ifs
    · exact .refl c
    -- a grant that is refused changes nothing but what is to be tried again
    · exact hmeasure.append (.of_eq rfl rfl)
    · exact hmeasure.append (.refl _)
    all_goals exact hmeasure.append (reckons_sendRdy i _ _)

theorem reckons_walk {step : Consumer → Nat → Consumer} {sums : Consumer → Nat → List Figure}
    (h : ∀ c i, Reckons (sums c i) c (step c i)) (is : List Nat) (c : Consumer) :
    Reckons (walkSums step sums is c) c (is.foldl step c) := by
  induction is generalizing c with
  | nil => exact .refl c
  | cons i is ih => exact (h c i).append (ih (step c i))

theorem reckons_grantAll (is : List Nat) (count : Int) (c : Consumer) :
    Reckons (c.grantSums is count) c (c.grantAll is count) :=
  reckons_walk (fun c i => reckons_updateRdy i count c) is c

theorem reckons_reclaim (is : List Nat) (c : Consumer) :
    Reckons (c.reclaimSums is) c (c.reclaim is) := by
  refine reckons_walk (fun c i => ?_) is c
  split_ifs
  · exact reckons_updateRdy i 0 c
  · exact .refl c

theorem reckons_evenOut (is : List Nat) (share : Int) (c : Consumer) :
    Reckons (c.evenOutSums is share) c (c.evenOut is share) :=
  (reckons_grantAll _ share c).append (reckons_grantAll _ share _)

/-- The draws that are left are always a word. -/
theorem reckons_scatter (chance : Nat → Nat) {n : Nat} (hn : n ≤ 2 ^ 63) (is : List Nat)
    (c : Consumer) : Reckons (c.scatterSums chance n is) c (scatter chance n is c) := by
  induction n generalizing is c with
  | zero => exact .refl c
  | succ n ih =>
    unfold scatterSums scatter
    dsimp only
    cases is[chance n % is.length]? with
    | none => exact .refl c
    | some i =>
      have hword : isWord64 n = true := isWord64_iff.mpr (by omega)
      have hdraw := Reckons.check .subtract n c c
      rw [check_of_isWord64 hword] at hdraw
      calc
        Reckons [⟨c, n, some .subtract⟩] c c := hdraw
        Reckons _ _ _ := reckons_updateRdy i 1 c
        Reckons _ _ _ := ih (by omega) _ _

theorem reckons_scatterUpTo (chance : Nat → Nat) (budget : Int) (is : List Nat) (c : Consumer) :
    Reckons (c.spareSums chance budget is) c (scatterUpTo chance budget is c) := by
  have hword := word64_lt_pow (c.spare budget)
  exact (Reckons.check .subtract (c.spare budget) c c).append
    (reckons_scatter chance (by omega) is _)

theorem reckons_spreadToActive (chance : Nat → Nat) (active idle : List Nat) (c : Consumer) :
    Reckons (c.spreadToActiveSums chance active idle) c (c.spreadToActive chance active idle) :=
  calc
    Reckons [] c { c with share := evenShare c.maxInFlight active.length } := .of_eq rfl rfl
    Reckons _ _ _ := reckons_reclaim idle _
    Reckons _ _ _ := reckons_evenOut active _ _
    Reckons _ _ _ := reckons_scatterUpTo chance _ idle _

theorem reckons_spreadToAny (chance : Nat → Nat) (active idle : List Nat) (c : Consumer) :
    Reckons (c.spreadToAnySums chance active idle) c (c.spreadToAny chance active idle) :=
  calc
    Reckons [] c { c with share := 0 } := .of_eq rfl rfl
    Reckons _ _ _ := reckons_reclaim idle _
    Reckons _ _ _ := reckons_scatterUpTo chance _ _ _

/-- **The sums are those of the operation**: spreading credit anew leaves the total as it is, or
leaves one of its sums as a word, and the first sum that is no word is noted. -/
theorem reckons_redistribute (chance : Nat → Nat) (c : Consumer) :
    Reckons (c.redistributeSums chance) c (c.redistribute chance) := by
  unfold redistributeSums redistribute
  split_ifs
  · exact .refl c
  · dsimp only
    have hset : Reckons [] c { c with respread := false } := .of_eq rfl rfl
    split_ifs
    · exact hset.append (reckons_spreadToActive chance _ _ _)
    · exact hset.append (reckons_spreadToAny chance _ _ _)
  · exact .refl c

/-! ### The kinds of sums -/

/-- The sums that there are: what the budget leaves beside all links, and to an open one; by how
much a grant changes the credit of a link, and the new total; what a single probe leaves; and how
many draws are left. -/
inductive Term (c : Consumer) : Int → Prop
  | spare : Term c (c.spare c.maxInFlight)
  | room {i : Nat} {conn : Connection} (hi : c.conn? i = some conn) (hc : conn.closing = false) :
      Term c (c.spare c.maxInFlight + conn.rdy)
  | change {i : Nat} {conn : Connection} {n : Int} (hi : c.conn? i = some conn)
      (hn : 0 ≤ conn.maxRdy → 0 ≤ n) (hm : n ≤ conn.maxRdy) : Term c (n - conn.rdy)
  | total {i : Nat} {conn : Connection} {n : Int} (hi : c.conn? i = some conn)
      (hn : 0 ≤ conn.maxRdy → 0 ≤ n) (hm : n ≤ conn.maxRdy) :
      Term c (c.totalRdy + (n - conn.rdy))
  | probe : Term c (c.spare 1)
  | draws {n : Nat} (h : n < 2 ^ 63) : Term c n

/-- A sum that is evaluated while `c` shares its budget out. -/
structure Summed (c : Consumer) (t : Figure) : Prop where
  sharing : Sharing c t.state
  term : t.state.Term t.value

theorem Summed.of_sharing (hs : Sharing c c') (h : Summed c' t) : Summed c t :=
  ⟨hs.trans h.sharing, h.term⟩

theorem Summed.here {x : Int} {op : Option Overflow} (h : c.Term x) : Summed c ⟨c, x, op⟩ :=
  ⟨.refl, h⟩

/-- A grant within what the daemon takes. -/
theorem mem_sendSums (ht : t ∈ c.sendSums i n)
    (hn : ∀ conn, c.conn? i = some conn → (0 ≤ conn.maxRdy → 0 ≤ n) ∧ n ≤ conn.maxRdy) :
    Summed c t := by
  unfold sendSums at ht
  cases hi : c.conn? i with
  | none => simp [hi] at ht
  | some conn =>
    obtain ⟨h0, hm⟩ := hn conn hi
    simp only [hi] at ht
    split_ifs at ht
    · exact absurd ht List.not_mem_nil
    · rw [List.mem_cons, List.mem_singleton] at ht
      rcases ht with rfl | rfl
      · exact .here (.change hi h0 hm)
      · exact .here (.total hi h0 hm)

theorem mem_updateSums (hn : 0 ≤ count) (ht : t ∈ c.updateSums i count) : Summed c t := by
  unfold updateSums at ht
  cases hi : c.conn? i with
  | none => simp [hi] at ht
  | some conn =>
    have hd : Sharing c (c.measure conn) :=
      .of_retuned ⟨tuned_measure conn c, rfl, fun e he => (mem_dropRetry.mp he).2⟩
    have hi' : (c.measure conn).conn? i = some conn := hi
    simp only [hi] at ht
    split_ifs at ht with hc hr hpos
    · exact absurd ht List.not_mem_nil
    -- the two sums of the room come first, whether the grant is refused or not
    all_goals
      refine .of_sharing hd ?_
      rcases List.mem_cons.mp ht with rfl | ht
      · exact .here .spare
      rcases List.mem_cons.mp ht with rfl | ht
      · exact .here (.room hi' (by simpa using hc))
    · exact absurd ht List.not_mem_nil
    all_goals
      refine mem_sendSums ht fun conn' hconn => ?_
      obtain rfl := Option.some.inj (hi'.symm.trans hconn)
      omega

/-- Along a walk the budget is shared out if every turn does so. -/
theorem mem_walkSums {step : Consumer → Nat → Consumer}
    {sums : Consumer → Nat → List Figure} (hstep : ∀ c i, Sharing c (step c i))
    (hsums : ∀ c i, ∀ t ∈ sums c i, Summed c t) {is : List Nat} (ht : t ∈ walkSums step sums is c) :
    Summed c t := by
  induction is generalizing c with
  | nil => exact absurd ht List.not_mem_nil
  | cons i is ih =>
    rcases List.mem_append.mp ht with ht | ht
    · exact hsums c i t ht
    · exact .of_sharing (hstep c i) (ih ht)

theorem mem_grantSums {is : List Nat} (hn : 0 ≤ count) (ht : t ∈ c.grantSums is count) :
    Summed c t :=
  mem_walkSums (fun _ i => sharing_grant i (.inl hn)) (fun _ _ _ => mem_updateSums hn) ht

theorem mem_reclaimSums {is : List Nat} (ht : t ∈ c.reclaimSums is) : Summed c t := by
  refine mem_walkSums (fun c i => ?_) (fun c i t ht => ?_) ht
  · exact sharing_reclaim [i] c
  · split_ifs at ht
    · exact mem_updateSums (Int.le_refl 0) ht
    · exact absurd ht List.not_mem_nil

theorem mem_evenOutSums {is : List Nat} {share : Int} (hs : 0 ≤ share)
    (ht : t ∈ c.evenOutSums is share) : Summed c t := by
  rcases List.mem_append.mp ht with ht | ht
  · exact mem_grantSums hs ht
  · exact .of_sharing (sharing_grantAll _ (.inl hs)) (mem_grantSums hs ht)

theorem mem_scatterSums {chance : Nat → Nat} {n : Nat} {is : List Nat} (hn : n ≤ 2 ^ 63)
    (ht : t ∈ c.scatterSums chance n is) : Summed c t := by
  induction n generalizing is c with
  | zero => exact absurd ht List.not_mem_nil
  | succ n ih =>
    unfold scatterSums at ht
    dsimp only at ht
    split at ht
    · exact absurd ht List.not_mem_nil
    · rename_i i _
      rcases List.mem_append.mp ht with ht | ht
      · rcases List.mem_cons.mp ht with rfl | ht
        · exact .here (.draws (by omega))
        · exact mem_updateSums Int.one_nonneg ht
      · exact .of_sharing (sharing_grant i (.inl Int.one_nonneg)) (ih (by omega) ht)

/-- What is left of a budget is a word, so that the draws can be counted in one. -/
theorem mem_spareSums {chance : Nat → Nat} {budget : Int} {is : List Nat}
    (hb : c.Term (c.spare budget)) (ht : t ∈ c.spareSums chance budget is) : Summed c t := by
  rcases List.mem_cons.mp ht with rfl | ht
  · exact .here hb
  · have hword := word64_lt_pow (c.spare budget)
    exact .of_sharing (sharing_check _ _ c) (mem_scatterSums (by omega) ht)

theorem retuned_share (c : Consumer) (share : Int) : Sharing c { c with share := share } :=
  .of_retuned ⟨by constructor <;> rfl, rfl, fun _ => id⟩

theorem mem_spreadToActiveSums {chance : Nat → Nat} {active idle : List Nat}
    (ht : t ∈ c.spreadToActiveSums chance active idle) : Summed c t := by
  have hshare : 0 ≤ evenShare c.maxInFlight active.length := by unfold evenShare; omega
  have hset := retuned_share c (evenShare c.maxInFlight active.length)
  have hidle := hset.trans (sharing_reclaim idle _)
  rcases List.mem_append.mp ht with ht | ht
  · rcases List.mem_append.mp ht with ht | ht
    · exact .of_sharing hset (mem_reclaimSums ht)
    · exact .of_sharing hidle (mem_evenOutSums hshare ht)
  · exact .of_sharing (hidle.trans (sharing_evenOut active hshare)) (mem_spareSums .spare ht)

theorem mem_spreadToAnySums {chance : Nat → Nat} {active idle : List Nat}
    (ht : t ∈ c.spreadToAnySums chance active idle) : Summed c t := by
  have hset := retuned_share c 0
  rcases List.mem_append.mp ht with ht | ht
  · exact .of_sharing hset (mem_reclaimSums ht)
  · refine .of_sharing (hset.trans (sharing_reclaim idle _)) (mem_spareSums ?_ ht)
    split_ifs
    · exact .probe
    · exact .spare

/-- **The sums of spreading credit anew** are evaluated while the budget is shared out, and there
are no others than the six kinds. -/
theorem mem_redistributeSums {chance : Nat → Nat} (ht : t ∈ c.redistributeSums chance) :
    Summed c t := by
  have hset : Sharing c { c with respread := false } :=
    .of_retuned ⟨by constructor <;> rfl, rfl, fun _ => id⟩
  unfold redistributeSums at ht
  split_ifs at ht
  · exact absurd ht List.not_mem_nil
  · dsimp only at ht
    split_ifs at ht
    · exact .of_sharing hset (mem_spreadToActiveSums ht)
    · exact .of_sharing hset (mem_spreadToAnySums ht)
  · exact absurd ht List.not_mem_nil

end Nsq.Consumer
