import Nsq.Proofs.Consumer.Steps
import Mathlib.Data.List.Nodup

/-!
# Daemons that are sought

A consumer keeps a list of daemons to come back to. Connecting takes an address down in that list
and leaving a daemon takes it out; when a link has ended, its address is tried again after a while
if it is still in the list. `Seek` says what may become of both lists at a time, and `seeks_step`
that a step does nothing else: only the addresses that an act connects to (`connectsTo`) are taken
down.

So no address is in the list twice (`Reaches.nodup_daemons`), and one that is not in it is neither
entered nor tried again until somebody connects to it (`Reaches.shuns`).
-/

namespace Nsq.Consumer

/-! ### What acts connect to -/

/-- The addresses that are tried when daemons are connected to one after another: the first failure
ends it. -/
def attempted (env : Surroundings) : List String → Consumer → List String
  | [], _ => []
  | addr :: addrs, c =>
    match c.connect env addr with
    | (.ok (), c) => addr :: attempted env addrs c
    | (.error _, _) => [addr]

/-- The daemons that an answer of a lookup service names, as far as they are wanted. -/
def wanted (a : Lookup.Answer) (c : Consumer) : List String :=
  c.filter (a.producers.map Lookup.Peer.address)

/-- The wanted daemons that are named when lookup services are asked. -/
def lookedUp (env : Surroundings) : (attempts : Nat) → Consumer → List String
  | 0, _ => []
  | n + 1, c =>
    match c.nextLookup with
    | (none, _) => []
    | (some addr, c) =>
      match Lookup.query addr c.subscription.topic env.ask with
      | .ok a => c.wanted a
      | .error _ => lookedUp env n c

/-- The wanted daemons that are named when lookup services are added: the first one is asked. -/
def lookedUpFor (env : Surroundings) : List String → Consumer → List String
  | [], _ => []
  | addr :: addrs, c =>
    match c.addLookup env addr with
    | (.error _, _) => []
    | (.ok (), c') =>
      let first : Consumer := { c with connected := true, lookups := [addr] }
      (if c.lookups.isEmpty then first.lookedUp env lookupAttempts else []) ++
        lookedUpFor env addrs c'

/-- The addresses that an act connects to, or tries to. To come back to an address after a while is
no such act: it leaves alone what is not sought. -/
def connectsTo (env : Surroundings) (a : Act) (c : Consumer) : List String :=
  match a with
  | .connect addrs => c.attempted env addrs
  | .found answer => c.wanted answer
  | .lookUp => c.lookedUp env lookupAttempts
  | .addLookups addrs => c.lookedUpFor env addrs
  | _ => []

/-! ### Changes of what is sought -/

/-- One change of the daemons to come back to and of the attempts under way. Only addresses that
were asked for are taken down. -/
inductive Seek (asked : String → Prop) (c c' : Consumer) : Prop
  | rest (hd : c'.daemons = c.daemons) (hr : c'.reconnects.Sublist c.reconnects)
  | enter (addr : String) (ha : asked addr) (hn : addr ∉ c.daemons)
      (hd : c'.daemons = c.daemons ++ [addr]) (hr : c'.reconnects = c.reconnects)
  | leave (addr : String) (hd : c'.daemons = c.daemons.erase addr)
      (hr : c'.reconnects = c.reconnects)
  | again (addr : String) (ha : addr ∈ c.daemons) (hd : c'.daemons = c.daemons)
      (hr : c'.reconnects = c.reconnects ++ [addr])

/-- Changes one after another. -/
abbrev Seeks (asked : String → Prop) : Consumer → Consumer → Prop :=
  Relation.ReflTransGen (Seek asked)

variable {asked : String → Prop} {c c' : Consumer}

theorem Seeks.mono {asked' : String → Prop} (h : Seeks asked c c')
    (hasked : ∀ addr, asked addr → asked' addr) : Seeks asked' c c' := by
  induction h with
  | refl => exact .refl
  | tail _ hs ih =>
    refine ih.tail ?_
    cases hs with
    | rest hd hr => exact .rest hd hr
    | enter addr ha hn hd hr => exact .enter addr (hasked addr ha) hn hd hr
    | leave addr hd hr => exact .leave addr hd hr
    | again addr ha hd hr => exact .again addr ha hd hr

/-- No address is entered twice. -/
theorem Seeks.nodup (h : Seeks asked c c') (hn : c.daemons.Nodup) : c'.daemons.Nodup := by
  induction h with
  | refl => exact hn
  | tail _ hs ih =>
    cases hs with
    | rest hd _ => exact hd ▸ ih
    | enter addr _ hnew hd _ =>
      rw [hd, ← List.concat_eq_append]
      exact ih.concat hnew
    | leave addr hd _ => exact hd ▸ ih.erase addr
    | again addr _ hd _ => exact hd ▸ ih

/-- An address that is not sought is neither entered nor tried again unless it is asked for. -/
theorem Seeks.shuns {addr : String} (h : Seeks asked c c') (hasked : ¬asked addr)
    (hn : addr ∉ c.daemons) :
    addr ∉ c'.daemons ∧ c'.reconnects.count addr ≤ c.reconnects.count addr := by
  induction h with
  | refl => exact ⟨hn, Nat.le_refl _⟩
  | tail _ hs ih =>
    obtain ⟨hout, hle⟩ := ih
    cases hs with
    | rest hd hr => exact ⟨hd ▸ hout, Nat.le_trans (hr.count_le addr) hle⟩
    | enter addr' ha _ hd hr =>
      have hne : addr ≠ addr' := by
        rintro rfl
        exact hasked ha
      refine ⟨?_, hr ▸ hle⟩
      rw [hd]
      simp [hout, hne]
    | leave addr' hd hr =>
      exact ⟨fun hmem => hout (List.mem_of_mem_erase (hd ▸ hmem)), hr ▸ hle⟩
    | again addr' ha hd hr =>
      have hne : addr' ≠ addr := by
        rintro rfl
        exact hout ha
      refine ⟨hd ▸ hout, ?_⟩
      rw [hr, List.count_append, List.count_singleton, if_neg (by simpa using hne)]
      exact hle

theorem seeks_of_eq (hd : c'.daemons = c.daemons) (hr : c'.reconnects = c.reconnects) :
    Seeks asked c c' :=
  .single (.rest hd (hr ▸ .refl _))

/-- What is sought may be followed from a consumer with the same lists. -/
theorem Seeks.after {d : Consumer} (h : Seeks asked d c') (hd : d.daemons = c.daemons)
    (hr : d.reconnects = c.reconnects) : Seeks asked c c' :=
  (seeks_of_eq hd hr).trans h

theorem seeks_of_lending (h : Lending c c') : Seeks asked c c' :=
  seeks_of_eq h.daemons h.reconnects

theorem seeks_foldl {α : Type} {f : Consumer → α → Consumer} {as : List α}
    (hf : ∀ c, ∀ a ∈ as, Seeks asked c (f c a)) (c : Consumer) : Seeks asked c (as.foldl f c) :=
  List.foldlRecOn as f .refl fun c' h a ha => h.trans (hf c' a ha)

/-! ### Messages -/

theorem seeks_passAll (chance : Nat → Nat) (i : Nat) (m : Message) (rs : List Request)
    (c : Consumer) : Seeks asked c (c.passAll chance i m rs) :=
  seeks_of_eq (passed_passAll chance i m rs c).daemons (passed_passAll chance i m rs c).reconnects

theorem seeks_call (chance : Nat → Nat) (n : Nat) (k : Call) (c : Consumer) :
    Seeks asked c (c.call chance n k).2 := by
  unfold call
  cases c.handed[n]? with
  | none => exact .refl
  | some h =>
    have hp : Seeks asked c (c.putState n (h.state.call k).2) := seeks_of_eq rfl rfl
    exact hp.trans (seeks_passAll chance h.link h.message _ _)

theorem seeks_finishHandling (chance : Nat → Nat) (n : Nat) (h : Handling) (c : Consumer) :
    Seeks asked c (c.finishHandling chance n h) := by
  unfold finishHandling
  cases c.handed[n]? with
  | none => exact .refl
  | some d =>
    have hp : Seeks asked c (({ c with busy := c.busy.filter (· != n) } : Consumer).putState n
        (d.state.handle h).2) := seeks_of_eq rfl rfl
    exact hp.trans (seeks_passAll chance d.link d.message _ _)

theorem seeks_giveUp (chance : Nat → Nat) (n : Nat) (c : Consumer) :
    Seeks asked c (c.giveUp chance n) := by
  unfold giveUp
  cases c.handed[n]? with
  | none => exact .refl
  | some h =>
    have hp : Seeks asked c (({ c with failed := c.failed + 1 } : Consumer).putState n
        (h.state.calls c.givingUp.calls).2) := seeks_of_eq rfl rfl
    have hc := hp.trans (seeks_passAll chance h.link h.message (h.state.calls c.givingUp.calls).1 _)
    dsimp only
    split
    · exact hc.trans (seeks_of_eq rfl rfl)
    · exact hc.trans (seeks_call chance n (.answer .finish) _)

theorem seeks_refill (i : Nat) (c : Consumer) : Seeks asked c (c.refill i) :=
  seeks_of_lending (dealing_refill i c).lending

theorem seeks_offer (chance : Nat → Nat) (i : Nat) (m : Message) (c : Consumer) :
    Seeks asked c (c.offer chance i m) := by
  unfold offer
  dsimp only
  split_ifs
  · exact seeks_of_eq rfl rfl
  · refine Relation.ReflTransGen.trans ?_ (seeks_passAll chance i m _ _)
    exact (seeks_refill i _).after rfl rfl

theorem seeks_note (chance : Nat → Nat) (i : Nat) (e : Connection.Event) (c : Consumer) :
    Seeks asked c (c.note chance i e) := by
  cases e with
  | response data =>
    unfold note
    dsimp only
    split_ifs
    · exact seeks_of_eq rfl rfl
    · exact .refl
  | message m rdy inFlight => exact seeks_offer chance i m c
  | _ => exact .refl

theorem seeks_readLink {chance : Nat → Nat} {i : Nat} (h : c.readLink chance i = some c') :
    Seeks asked c c' := by
  unfold readLink at h
  cases hi : c.conn? i with
  | none => simp [hi] at h
  | some conn =>
    rw [hi] at h
    obtain ⟨⟨events, conn'⟩, -, rfl⟩ := Option.map_eq_some_iff.mp h
    have hp : Seeks asked c (c.putConn i conn') := seeks_of_eq rfl rfl
    have hn : Seeks asked c (events.foldl (fun c e => c.note chance i e) (c.putConn i conn')) :=
      hp.trans (seeks_foldl (fun c e _ => seeks_note chance i e c) _)
    exact hn.trans (seeks_of_eq rfl rfl)

theorem seeks_take (chance : Nat → Nat) (o : Offer) (c : Consumer) :
    Seeks asked c (c.take chance o) := by
  unfold take
  dsimp only
  split_ifs
  · exact (seeks_giveUp chance _ _).after rfl rfl
  · exact seeks_of_eq rfl rfl

theorem seeks_handOver (chance : Nat → Nat) (o : Offer) (c : Consumer) :
    Seeks asked c (c.handOver chance o) := by
  have hr : Seeks asked c ((c.modifyLink o.link Link.unstall).refill o.link) :=
    (seeks_refill o.link _).after rfl rfl
  calc
    Seeks asked c ((c.modifyLink o.link Link.unstall).refill o.link) := hr
    Seeks asked _ _ := seeks_take chance o _
    Seeks asked _ (c.handOver chance o) := seeks_of_eq rfl rfl

theorem seeks_work? {chance : Nat → Nat} (h : c.work? chance = some c') : Seeks asked c c' := by
  have hread : ∀ is : List Nat, (is.findSome? fun i => c.readLink chance i) = some c' →
      Seeks asked c c' := by
    intro is his
    obtain ⟨i, -, hi⟩ := List.exists_of_findSome?_eq_some his
    exact seeks_readLink hi
  unfold work? at h
  split at h
  · rename_i o rest ho
    split_ifs at h
    · obtain rfl := Option.some.inj h
      exact (seeks_handOver chance o _).after rfl rfl
    · exact hread _ h
  · exact hread _ h

theorem seeks_work (chance : Nat → Nat) (c : Consumer) : Seeks asked c (c.work chance) := by
  unfold work
  generalize c.load = fuel
  induction fuel generalizing c with
  | zero => exact .refl
  | succ fuel ih =>
    unfold workFor
    split
    · exact .refl
    · rename_i c' h
      exact (seeks_work? h).trans (ih c')

/-! ### Ends -/

theorem seeks_exit (c : Consumer) : Seeks asked c c.exit :=
  .single (.rest rfl (List.nil_sublist _))

theorem seeks_stopServing (c : Consumer) : Seeks asked c c.stopServing := by
  have hs : Seeks asked c { c with serving := false } := seeks_of_eq rfl rfl
  unfold stopServing
  dsimp only
  split_ifs
  · exact hs.trans (seeks_exit _)
  · exact hs
  · exact .refl

/-- An address is tried again only if it is sought. -/
theorem seeks_seekAgain (addr : String) (c : Consumer) : Seeks asked c (c.seekAgain addr) := by
  unfold seekAgain
  split_ifs with hl hd
  · exact seeks_of_eq rfl rfl
  · exact .single (.again addr (List.contains_iff_mem.mp hd) rfl rfl)
  · exact .refl

theorem seeks_retire (i : Nat) (c : Consumer) : Seeks asked c (c.retire i) := by
  have hlast : ∀ (addr : String) (d : Consumer), d.daemons = c.daemons →
      d.reconnects = c.reconnects → Seeks asked c
        (if d.stopping then if d.live.isEmpty then d.stopServing else d else d.seekAgain addr) := by
    intro addr d hd hr
    have hs : Seeks asked c d := seeks_of_eq hd hr
    split_ifs
    · exact hs.trans (seeks_stopServing d)
    · exact hs
    · exact hs.trans (seeks_seekAgain addr d)
  unfold retire
  cases c.conn? i with
  | none => exact .refl
  | some conn =>
    refine hlast conn.address _ ?_ ?_
    · split_ifs <;> rfl
    · split_ifs <;> rfl

theorem seeks_settleLink (i : Nat) (c : Consumer) : Seeks asked c (c.settleLink i) := by
  unfold settleLink
  cases c.conn? i with
  | none => exact .refl
  | some conn =>
    have hp : Seeks asked c (c.putConn i conn.settle.2) := seeks_of_eq rfl rfl
    dsimp only
    split_ifs
    · exact hp
    · exact hp.trans (seeks_retire i _)

theorem seeks_dismiss (c : Consumer) : Seeks asked c c.dismiss := by
  unfold dismiss
  dsimp only
  split_ifs
  · exact .refl
  · exact (seeks_exit _).after rfl rfl
  · exact seeks_of_eq rfl rfl

theorem seeks_settle (c : Consumer) : Seeks asked c c.settle :=
  (seeks_foldl (fun d i _ => seeks_settleLink i d) c).trans (seeks_dismiss _)

theorem seeks_stop (c : Consumer) : Seeks asked c c.stop := by
  have hs : Seeks asked c { c with stopping := true } := seeks_of_eq rfl rfl
  unfold stop
  split_ifs
  · exact .refl
  · dsimp only
    split_ifs
    · exact hs.trans (seeks_stopServing _)
    · refine hs.trans (seeks_foldl (fun d i _ => ?_) _)
      have ht : d.tell .startClose i = d.modifyConn i fun conn => (conn.write .startClose).2.2 :=
        modifyConn_eq i _ d
      rw [ht]
      exact seeks_of_eq rfl rfl

/-! ### Daemons -/

theorem seeks_seeking {addr : String} (h : asked addr ∨ addr ∈ c.daemons) :
    Seeks asked c (c.seeking addr) := by
  by_cases hmem : addr ∈ c.daemons
  · exact seeks_of_eq (if_pos (List.contains_iff_mem.mpr hmem)) rfl
  · have hnew : ¬c.daemons.contains addr = true := by
      rwa [List.contains_iff_mem]
    exact .single (.enter addr (h.resolve_right hmem) hmem (if_neg hnew) rfl)

/-- A link that enters the table only costs the others credit. -/
theorem lending_joined (l : Link) (c : Consumer) :
    Lending { c.welcome l with share := 0 } (c.joined l) :=
  (sharing_refillAll _ _).dealing.lending

/-- Connecting takes an address down, or leaves the list of daemons as it is. -/
theorem daemons_connect (env : Surroundings) (addr : String) (c : Consumer) :
    ((¬c.Dials addr ∧ (c.connect env addr).2.daemons = c.daemons) ∨
        c.Dials addr ∧ (c.connect env addr).2.daemons = (c.seeking addr).daemons) ∧
      (c.connect env addr).2.reconnects = c.reconnects := by
  rcases connect_cases env addr c with ⟨hd, failure, b, h⟩ | ⟨hd, ⟨failure, h⟩ |
    ⟨l, failure, -, -, -, h⟩ | ⟨l, -, -, -, h⟩⟩ <;> rw [h]
  · exact ⟨.inl ⟨hd, rfl⟩, rfl⟩
  · exact ⟨.inr ⟨hd, rfl⟩, rfl⟩
  · exact ⟨.inr ⟨hd, rfl⟩, rfl⟩
  · have hl := lending_joined l (c.seeking addr)
    exact ⟨.inr ⟨hd, hl.daemons⟩, hl.reconnects⟩

theorem seeks_connect {addr : String} (env : Surroundings) (h : asked addr ∨ addr ∈ c.daemons) :
    Seeks asked c (c.connect env addr).2 := by
  obtain ⟨⟨-, hd⟩ | ⟨-, hd⟩, hr⟩ := daemons_connect env addr c
  · exact seeks_of_eq hd hr
  · exact (seeks_seeking h).trans (seeks_of_eq hd hr)

theorem seeks_connectAll (env : Surroundings) (addrs : List String) (c : Consumer) :
    Seeks (· ∈ c.attempted env addrs) c (c.connectAll env addrs).2 := by
  induction addrs generalizing c with
  | nil => exact .refl
  | cons addr addrs ih =>
    have hs : ∀ asked : String → Prop, asked addr → Seeks asked c (c.connect env addr).2 :=
      fun _ h => seeks_connect env (.inl h)
    unfold connectAll attempted
    rcases hc : c.connect env addr with ⟨_ | _, d⟩ <;> rw [hc] at hs <;> dsimp only
    · exact hs _ (List.mem_singleton_self addr)
    · exact (hs _ List.mem_cons_self).trans ((ih d).mono fun _ => List.mem_cons_of_mem addr)

theorem seeks_disconnect (addr : String) (c : Consumer) :
    Seeks asked c (c.disconnect addr).2 := by
  have hl : Seeks asked c { c with daemons := c.daemons.erase addr } :=
    .single (.leave addr rfl rfl)
  unfold disconnect
  split_ifs
  · dsimp only
    split
    · exact hl.trans (seeks_of_eq rfl rfl)
    · exact hl
  · exact .refl

/-- To come back to an address takes none down: it must be sought already. -/
theorem seeks_reconnect (env : Surroundings) (addr : String) (c : Consumer) :
    Seeks asked c (c.reconnect env addr) := by
  set gone : Consumer := { c with reconnects := c.reconnects.erase addr } with hgone
  have hg : Seeks asked c gone := .single (.rest rfl List.erase_sublist)
  unfold reconnect
  split_ifs with hin hstay
  · exact hg
  · have hsought : addr ∈ c.daemons := by
      simp only [Bool.or_eq_true, Bool.not_eq_true', not_or, Bool.not_eq_false] at hstay
      exact List.contains_iff_mem.mp hstay.2
    have hc : Seeks asked c (gone.connect env addr).2 :=
      hg.trans (seeks_connect env (.inr hsought))
    have hkept : addr ∈ (gone.connect env addr).2.daemons := by
      obtain ⟨⟨-, hd⟩ | ⟨-, hd⟩, -⟩ := daemons_connect env addr gone
      · exact hd ▸ hsought
      · rw [hd, seeking, if_pos (List.contains_iff_mem.mpr hsought)]
        exact hsought
    dsimp only
    rw [← hgone]
    split <;> rename_i heq <;> rw [heq] at hc hkept
    · exact hc
    · exact hc
    · exact hc.tail (.again addr hkept rfl rfl)
  · exact .refl

theorem seeks_connectFound (env : Surroundings) (a : Lookup.Answer) (c : Consumer) :
    Seeks (· ∈ c.wanted a) c (c.connectFound env a) :=
  seeks_foldl (fun _ _ ha => seeks_connect env (.inl ha)) c

/-! ### Lookup services -/

theorem seeks_nextLookup (c : Consumer) : Seeks asked c c.nextLookup.2 := by
  unfold nextLookup
  split
  · exact .refl
  · exact seeks_of_eq rfl rfl

theorem seeks_askLookups (env : Surroundings) (n : Nat) (c : Consumer) :
    Seeks (· ∈ c.lookedUp env n) c (c.askLookups env n) := by
  induction n generalizing c with
  | zero => exact .refl
  | succ n ih =>
    unfold askLookups lookedUp
    have hn : ∀ asked, Seeks asked c c.nextLookup.2 := fun _ => seeks_nextLookup c
    rcases hc : c.nextLookup with ⟨_ | addr, d⟩ <;> rw [hc] at hn <;> dsimp only
    · exact hn _
    · cases Lookup.query addr d.subscription.topic env.ask with
      | ok a => exact (hn _).trans (seeks_connectFound env a d)
      | error _ => exact (hn _).trans (ih d)

/-- Beside entering a lookup service, adding it asks the first one; a refused one is not asked. -/
theorem seeks_addLookup (env : Surroundings) (addr : String) (c : Consumer) :
    Seeks (fun a => (c.addLookup env addr).1 = .ok () ∧ c.lookups.isEmpty = true ∧
        a ∈ lookedUp env lookupAttempts { c with connected := true, lookups := [addr] }) c
      (c.addLookup env addr).2 := by
  unfold addLookup
  split_ifs
  · exact .refl
  · exact .refl
  · split
    · exact .refl
    · dsimp only
      split_ifs with hin hfirst
      · exact seeks_of_eq rfl rfl
      · have hnone : c.lookups = [] := by simpa using hfirst
        rw [hnone, List.nil_append]
        have hs : Seeks _ c _ := (seeks_askLookups env lookupAttempts
          { c with connected := true, lookups := [addr] }).after rfl rfl
        exact hs.mono fun a ha => ⟨rfl, rfl, ha⟩
      · exact seeks_of_eq rfl rfl

theorem seeks_addLookups (env : Surroundings) (addrs : List String) (c : Consumer) :
    Seeks (· ∈ c.lookedUpFor env addrs) c (c.addLookups env addrs).2 := by
  induction addrs generalizing c with
  | nil => exact .refl
  | cons addr addrs ih =>
    have hs := seeks_addLookup env addr c
    unfold addLookups lookedUpFor
    rcases hc : c.addLookup env addr with ⟨_ | _, d⟩ <;> rw [hc] at hs <;> dsimp only at hs ⊢
    · exact hs.mono fun a ha => by simp at ha
    · refine Relation.ReflTransGen.trans (hs.mono fun a ha => ?_) ((ih d).mono fun a ha => ?_)
      · rw [if_pos ha.2.1]
        exact List.mem_append_left _ ha.2.2
      · exact List.mem_append_right _ ha

theorem seeks_dropLookup (addr : String) (c : Consumer) : Seeks asked c (c.dropLookup addr).2 := by
  unfold dropLookup
  split_ifs
  · exact .refl
  · exact seeks_of_eq rfl rfl
  · exact .refl

/-! ### Steps and runs -/

/-- **A step takes down what its act connects to, and nothing else.** -/
theorem seeks_step (env : Surroundings) (a : Act) (c : Consumer) :
    Seeks (· ∈ c.connectsTo env a) c (c.step env a).2 := by
  have hact : Seeks (· ∈ c.connectsTo env a) c (c.act env a).2 := by
    cases a with
    | attach link => exact seeks_of_eq rfl rfl
    | refuse i on => exact seeks_of_eq rfl rfl
    | feed i b => exact seeks_of_eq rfl rfl
    | endOfInput i => exact seeks_of_eq rfl rfl
    | idle i => exact seeks_of_eq rfl rfl
    | closeLink i => exact seeks_of_eq rfl rfl
    | retire i => exact seeks_retire i c
    | updateRdy i count => exact seeks_of_lending (dealing_updateRdy i count c).lending
    | sendRdy i count => exact seeks_of_lending (lending_sendRdy i count c)
    | refill i => exact seeks_refill i c
    | retry addr count => exact seeks_of_lending (dealing_retry addr count c).lending
    | signal s => exact seeks_of_lending (dealing_signal env.chance s c).lending
    | resume => exact seeks_of_lending (dealing_resume env.chance c).lending
    | redistribute => exact seeks_of_lending (dealing_redistribute env.chance c).lending
    | respread => exact seeks_of_eq rfl rfl
    | changeMaxInFlight n => exact seeks_of_lending (dealing_changeMaxInFlight n c).lending
    | handle n h => exact seeks_finishHandling env.chance n h c
    | call n k => exact seeks_call env.chance n k c
    | addHandlers n =>
      simp only [act, replying, addHandlers]
      split_ifs
      · exact .refl
      · exact seeks_of_eq rfl rfl
    | connect addrs => exact seeks_connectAll env addrs c
    | disconnect addr => exact seeks_disconnect addr c
    | reconnect addr => exact seeks_reconnect env addr c
    | addLookups addrs => exact seeks_addLookups env addrs c
    | dropLookup addr => exact seeks_dropLookup addr c
    | lookUp => exact seeks_askLookups env lookupAttempts c
    | found answer => exact seeks_connectFound env answer c
    | stop => exact seeks_stop c
  calc
    Seeks (· ∈ c.connectsTo env a) c (c.act env a).2 := hact
    Seeks (· ∈ c.connectsTo env a) _ _ := seeks_work env.chance _
    Seeks (· ∈ c.connectsTo env a) _ _ := seeks_settle _

/-- **No address is sought twice**, along any run. -/
theorem Reaches.nodup_daemons {ok : Surroundings → Act → Consumer → Prop} (h : Reaches ok c c')
    (hn : c.daemons.Nodup) : c'.daemons.Nodup := by
  induction h with
  | refl => exact hn
  | step _ _ ih => exact (seeks_step _ _ _).nodup ih

/-- The acts that do not connect to an address. -/
def Shuns (addr : String) (env : Surroundings) (a : Act) (c : Consumer) : Prop :=
  addr ∉ c.connectsTo env a

/-- **An address that is not sought is left alone**, until an act connects to it. -/
theorem Reaches.shuns {addr : String} (h : Reaches (Shuns addr) c c') (hn : addr ∉ c.daemons) :
    addr ∉ c'.daemons ∧ c'.reconnects.count addr ≤ c.reconnects.count addr := by
  induction h with
  | refl => exact ⟨hn, Nat.le_refl _⟩
  | step _ ha ih =>
    obtain ⟨hout, hle⟩ := (seeks_step _ _ _).shuns ha ih.1
    exact ⟨hout, Nat.le_trans hle ih.2⟩

end Nsq.Consumer
