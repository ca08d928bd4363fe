import Ascendance.Models.NotificationCache.Cache

/-!
# Integrity of the notification cache

A transaction checks nothing it writes upon: a refill appends to a list that it
expects to be gone, and marking writes into a hash that it expects to be there.
While these expectations are met, lists are distinct and bounded and hashes are
complete.
-/

namespace Ascendance.NotificationCache

open Ascendance.Core

variable {Content : Type*}

/-- Lists are distinct and bounded, hashes have their data and a time to live, and no page
returned a notification twice. -/
structure World.Intact (w : World Content) : Prop where
  distinct : ∀ userId, (w.lists userId).Nodup
  bounded : ∀ userId, ((w.lists userId).length : ℤ) ≤ w.maxCount userId
  complete : ∀ id h, w.hashes id = some h → h.data.isSome = true ∧ h.expires = true
  pages : ∀ page ∈ w.pages, (page.map (·.id)).Nodup

/-- The identifiers that a list has room for. -/
def fitting (list ids : List String) (maxCount : ℤ) : List String :=
  ids.take (maxCount.toNat - list.length)

/-- The round trip finds what it expects: the identifiers it appends are distinct and new to
the list, and the hashes it marks exist. -/
def Call.Safe (w : World Content) : Call Content → Prop
  | .begin (.pushNotification _ _ maxCount) => 1 ≤ maxCount
  | .begin (.markNotificationRead id) => (w.hashes id).isSome = true
  | .begin (.markNotificationsRead ids) => ∀ id ∈ ids, (w.hashes id).isSome = true
  | .refill userId notifications maxCount =>
    let appended := fitting (w.lists userId) (notifications.map (·.id)) maxCount
    1 ≤ maxCount ∧ appended.Nodup ∧ ∀ id ∈ appended, id ∉ w.lists userId
  | .begin (.backfillNotifications _ _ _) | .begin (.clearNotificationCaches _ _)
  | .begin (.getUserNotifications _ _ _) | .collect _ _ _ | .delete _ | .fetch _ | .ended => True

/-- The round trip finds the cache as its call needs it. -/
def Event.Safe (w : World Content) : Event Content → Prop
  | .roundTrip k => ∀ c, w.calls[k]? = some c → c.Safe w
  | .call _ | .abort _ | .listExpires _ | .hashExpires _ => True

instance (w : World Content) (c : Call Content) : Decidable (c.Safe w) := by
  unfold Call.Safe
  split <;> infer_instance

instance (w : World Content) (e : Event Content) : Decidable (e.Safe w) := by
  cases e with
  | roundTrip k => exact inferInstanceAs (Decidable (∀ c ∈ w.calls[k]?, c.Safe w))
  | call r => exact .isTrue trivial
  | abort k => exact .isTrue trivial
  | listExpires userId => exact .isTrue trivial
  | hashExpires id => exact .isTrue trivial

/-- A hash holds the notification of its key and has a time to live. -/
def HashOk (id : String) (h : Hash Content) : Prop :=
  (∃ n, h.data = some n ∧ n.id = id) ∧ h.expires = true

/-- Every hash is of its notification. -/
def HashesOk (hashes : String → Option (Hash Content)) : Prop :=
  ∀ id h, hashes id = some h → HashOk id h

/-- Writing a hash of its notification keeps the hashes. -/
theorem HashesOk.update {hashes : String → Option (Hash Content)} (ho : HashesOk hashes)
    {id : String} {h : Hash Content} (hh : HashOk id h) :
    HashesOk (Function.update hashes id (some h)) := by
  intro id' h' hget
  by_cases hid : id' = id
  · subst hid
    rw [Function.update_self] at hget
    exact Option.some.inj hget ▸ hh
  · rw [Function.update_of_ne hid] at hget
    exact ho id' h' hget

/-- Storing a notification keeps the hashes. -/
theorem HashesOk.storeNotification {hashes : String → Option (Hash Content)}
    (ho : HashesOk hashes) (n : INotification Content) : HashesOk (storeNotification hashes n) :=
  ho.update ⟨⟨n, rfl, rfl⟩, rfl⟩

/-- Storing several notifications keeps the hashes. -/
private theorem HashesOk.storeAll {hashes : String → Option (Hash Content)} (ho : HashesOk hashes)
    (notifications : List (INotification Content)) :
    HashesOk (notifications.foldl NotificationCache.storeNotification hashes) := by
  induction notifications generalizing hashes with
  | nil => exact ho
  | cons n notifications ih => exact ih (ho.storeNotification n)

/-- Marking a hash that is there keeps what it holds. -/
theorem HashesOk.setRead {hashes : String → Option (Hash Content)} (ho : HashesOk hashes)
    {id : String} (hid : (hashes id).isSome = true) : HashesOk (setRead hashes id) := by
  obtain ⟨h, hget⟩ := Option.isSome_iff_exists.mp hid
  unfold NotificationCache.setRead
  rw [hget]
  exact ho.update (ho id h hget)

private theorem isSome_setRead (hashes : String → Option (Hash Content)) {id id' : String}
    (hid : (hashes id').isSome = true) : (setRead hashes id id').isSome = true := by
  unfold NotificationCache.setRead
  by_cases h : id' = id
  · subst h
    rw [Function.update_self]
    rfl
  · rw [Function.update_of_ne h]
    exact hid

/-- Marking several notifications keeps the hashes. -/
private theorem HashesOk.setReadAll {hashes : String → Option (Hash Content)} (ho : HashesOk hashes)
    {ids : List String} (hids : ∀ id ∈ ids, (hashes id).isSome = true) :
    HashesOk (ids.foldl NotificationCache.setRead hashes) := by
  induction ids generalizing hashes with
  | nil => exact ho
  | cons id ids ih =>
    refine ih (ho.setRead (hids id List.mem_cons_self)) fun id' hid' => ?_
    exact isSome_setRead hashes (hids id' (List.mem_cons_of_mem _ hid'))

/-- Distinct identifiers give distinct notifications. -/
theorem HashesOk.page_nodup {hashes : String → Option (Hash Content)} (ho : HashesOk hashes)
    {ids : List String} (hids : ids.Nodup) :
    ((ids.filterMap (toNotification hashes)).map (·.id)).Nodup := by
  have hid : ∀ {id n}, toNotification hashes id = some n → n.id = id := by
    intro id n hn
    obtain ⟨h, hget, hdata⟩ := Option.bind_eq_some_iff.mp hn
    obtain ⟨m, hm, rfl⟩ := Option.map_eq_some_iff.mp hdata
    obtain ⟨⟨m', hm', hmid⟩, -⟩ := ho id h hget
    obtain rfl := Option.some.inj (hm.symm.trans hm')
    exact hmid
  rw [List.map_filterMap]
  refine hids.filterMap ?_
  intro id id' n hn hn'
  obtain ⟨m, hm, rfl⟩ := Option.map_eq_some_iff.mp hn
  obtain ⟨m', hm', heq⟩ := Option.map_eq_some_iff.mp hn'
  rw [← hid hm, ← hid hm']
  exact heq.symm

/-- A list that has been cut is no longer than the maximum. -/
theorem length_trim (l : List String) {maxCount : ℤ} (hmax : 1 ≤ maxCount) :
    ((lRange l 0 (maxCount - 1)).length : ℤ) ≤ maxCount := by
  rw [lRange_eq_take l hmax]
  have hle : (l.take maxCount.toNat).length ≤ maxCount.toNat := List.length_take_le _ _
  omega

/-- A pushed list has no identifier twice. -/
private theorem nodup_push {l : List String} (hl : l.Nodup) (id : String) (maxCount : ℤ) :
    (lRange (id :: l.filter (· ≠ id)) 0 (maxCount - 1)).Nodup := by
  refine List.Nodup.sublist (lRange_sublist _ _ _) ?_
  refine List.nodup_cons.mpr ⟨fun hmem => ?_, hl.filter _⟩
  have hne := (List.mem_filter.mp hmem).2
  exact absurd rfl (of_decide_eq_true hne)

/-- Appending to a distinct list leaves it distinct exactly when the identifiers that fit are
distinct and new to it. -/
theorem nodup_refill_iff {l : List String} (hl : l.Nodup) (ids : List String) {maxCount : ℤ}
    (hmax : 1 ≤ maxCount) :
    (lRange (l ++ ids) 0 (maxCount - 1)).Nodup ↔
      (fitting l ids maxCount).Nodup ∧ ∀ id ∈ fitting l ids maxCount, id ∉ l := by
  rw [lRange_eq_take _ hmax, List.take_append, List.nodup_append]
  constructor
  · rintro ⟨-, hfit, hdisjoint⟩
    refine ⟨hfit, fun id hid hmem => ?_⟩
    -- An identifier fits only below the maximum, so no element of the list has been cut off.
    have hroom : l.length ≤ maxCount.toNat := by
      by_contra hfull
      have hzero : maxCount.toNat - l.length = 0 := by omega
      simp [fitting, hzero] at hid
    rw [List.take_of_length_le hroom] at hdisjoint
    exact hdisjoint id hmem id hid rfl
  · rintro ⟨hfit, hnew⟩
    refine ⟨hl.sublist (List.take_sublist _ _), hfit, ?_⟩
    rintro id hmem id' hid rfl
    exact hnew id hid (List.mem_of_mem_take hmem)

/-- A list that is still empty, as the `DEL` left it, takes any distinct identifiers. -/
theorem Call.Safe.of_empty {w : World Content} {userId : String}
    {notifications : List (INotification Content)} {maxCount : ℤ} (hmax : 1 ≤ maxCount)
    (hempty : w.lists userId = []) (hids : (notifications.map (·.id)).Nodup) :
    (Call.refill userId notifications maxCount).Safe w := by
  refine ⟨hmax, hids.sublist (List.take_sublist _ _), fun id _ => ?_⟩
  rw [hempty]
  exact List.not_mem_nil

/-- A call that has read a page of a list has read distinct identifiers. -/
def CallOk : Call Content → Prop
  | .fetch ids => ids.Nodup
  | .begin _ | .refill _ _ _ | .collect _ _ _ | .delete _ | .ended => True

/-- What holds of a cache whose round trips were safe. -/
structure World.Invariant (w : World Content) : Prop where
  distinct : ∀ userId, (w.lists userId).Nodup
  bounded : ∀ userId, ((w.lists userId).length : ℤ) ≤ w.maxCount userId
  nonneg : ∀ userId, 0 ≤ w.maxCount userId
  hashes : HashesOk w.hashes
  calls : ∀ c ∈ w.calls, CallOk c
  pages : ∀ page ∈ w.pages, (page.map (·.id)).Nodup

namespace World

variable {w : World Content}

/-- The invariant says that the cache is intact. -/
private theorem Invariant.intact (hi : w.Invariant) : w.Intact where
  distinct := hi.distinct
  bounded := hi.bounded
  complete id h hget := by
    obtain ⟨⟨n, hn, -⟩, hexpires⟩ := hi.hashes id h hget
    refine ⟨?_, hexpires⟩
    rw [hn]
    rfl
  pages := hi.pages

/-- The empty cache has the invariant. -/
theorem Invariant.initial : (World.initial : World Content).Invariant where
  distinct _ := List.nodup_nil
  bounded _ := Int.le_refl 0
  nonneg _ := Int.le_refl 0
  hashes _ _ h := by cases h
  calls _ h := absurd h List.not_mem_nil
  pages _ h := absurd h List.not_mem_nil

/-- A call may change its state. -/
theorem Invariant.setCall (hi : w.Invariant) (k : ℕ) {c : Call Content} (hc : CallOk c) :
    (w.setCall k c).Invariant where
  distinct := hi.distinct
  bounded := hi.bounded
  nonneg := hi.nonneg
  hashes := hi.hashes
  calls c' hc' := by
    rcases List.mem_or_eq_of_mem_set hc' with hold | rfl
    · exact hi.calls c' hold
    · exact hc
  pages := hi.pages

private theorem Invariant.withHashes (hi : w.Invariant) {hashes : String → Option (Hash Content)}
    (ho : HashesOk hashes) : Invariant { w with hashes } :=
  ⟨hi.distinct, hi.bounded, hi.nonneg, ho, hi.calls, hi.pages⟩

/-- A transaction writes the list of one user. -/
theorem Invariant.withList (hi : w.Invariant) {userId : String} {l : List String} {maxCount : ℤ}
    (hdistinct : l.Nodup) (hbounded : (l.length : ℤ) ≤ maxCount) (hmax : 1 ≤ maxCount) :
    Invariant { w with
      lists := Function.update w.lists userId l
      maxCount := Function.update w.maxCount userId maxCount } where
  distinct userId' := by
    by_cases h : userId' = userId
    · subst h
      simp only [Function.update_self]
      exact hdistinct
    · simp only [Function.update_of_ne h]
      exact hi.distinct userId'
  bounded userId' := by
    by_cases h : userId' = userId
    · subst h
      simp only [Function.update_self]
      exact hbounded
    · simp only [Function.update_of_ne h]
      exact hi.bounded userId'
  nonneg userId' := by
    by_cases h : userId' = userId
    · subst h
      simp only [Function.update_self]
      exact Int.le_trans Int.one_nonneg hmax
    · simp only [Function.update_of_ne h]
      exact hi.nonneg userId'
  hashes := hi.hashes
  calls := hi.calls
  pages := hi.pages

/-- A push keeps the invariant. -/
theorem Invariant.push (hi : w.Invariant) (userId : String) (n : INotification Content)
    {maxCount : ℤ} (hmax : 1 ≤ maxCount) : (w.push userId n maxCount).Invariant :=
  (hi.withHashes (hi.hashes.storeNotification n)).withList
    (nodup_push (hi.distinct userId) n.id maxCount) (length_trim _ hmax) hmax

/-- A safe backfill keeps the invariant. -/
theorem Invariant.refill (hi : w.Invariant) {userId : String}
    {notifications : List (INotification Content)} {maxCount : ℤ}
    (hsafe : (Call.refill userId notifications maxCount).Safe w) :
    (w.refill userId notifications maxCount).Invariant :=
  (hi.withHashes (hi.hashes.storeAll notifications)).withList
    ((nodup_refill_iff (hi.distinct userId) _ hsafe.1).mpr hsafe.2) (length_trim _ hsafe.1) hsafe.1

/-- Deleting keys keeps the invariant. -/
theorem Invariant.del (hi : w.Invariant) (keys : List Key) : (w.del keys).Invariant where
  distinct userId := by
    simp only [World.del]
    split
    · exact List.nodup_nil
    · exact hi.distinct userId
  bounded userId := by
    simp only [World.del]
    split
    · exact hi.nonneg userId
    · exact hi.bounded userId
  nonneg := hi.nonneg
  hashes id h hget := by
    simp only [World.del] at hget
    split at hget
    · cases hget
    · exact hi.hashes id h hget
  calls := hi.calls
  pages := hi.pages

/-- The first round trip of a request keeps the invariant. -/
theorem Invariant.request (hi : w.Invariant) {r : Request Content} (hsafe : (Call.begin r).Safe w) :
    (w.request r).1.Invariant ∧ CallOk (w.request r).2 := by
  cases r with
  | pushNotification userId n maxCount => exact ⟨hi.push userId n hsafe, trivial⟩
  | backfillNotifications userId notifications maxCount => exact ⟨hi.del _, trivial⟩
  | markNotificationRead id => exact ⟨hi.withHashes (hi.hashes.setRead hsafe), trivial⟩
  | markNotificationsRead ids => exact ⟨hi.withHashes (hi.hashes.setReadAll hsafe), trivial⟩
  | clearNotificationCaches userIds ids => exact ⟨hi, trivial⟩
  | getUserNotifications userId page limit =>
    exact ⟨hi, (hi.distinct userId).sublist (lRange_sublist _ _ _)⟩

/-- Reading a page of distinct identifiers keeps the invariant. -/
theorem Invariant.fetch (hi : w.Invariant) {ids : List String} (hids : ids.Nodup) :
    Invariant { w with pages := w.pages ++ [ids.filterMap (toNotification w.hashes)] } where
  distinct := hi.distinct
  bounded := hi.bounded
  nonneg := hi.nonneg
  hashes := hi.hashes
  calls := hi.calls
  pages page hpage := by
    rcases List.mem_append.mp hpage with hold | hnew
    · exact hi.pages page hold
    · obtain rfl := List.mem_singleton.mp hnew
      exact hi.hashes.page_nodup hids

/-- Every safe round trip keeps the invariant. -/
theorem Invariant.roundTrip (hi : w.Invariant) {c : Call Content} (hok : CallOk c)
    (hsafe : c.Safe w) {r : World Content × Call Content} (h : w.roundTrip c = some r) :
    r.1.Invariant ∧ CallOk r.2 := by
  unfold World.roundTrip at h
  split at h
  · obtain rfl := Option.some.inj h
    exact hi.request hsafe
  · obtain rfl := Option.some.inj h
    exact ⟨hi.refill hsafe, trivial⟩
  · obtain rfl := Option.some.inj h
    exact ⟨hi, trivial⟩
  · obtain rfl := Option.some.inj h
    exact ⟨hi, trivial⟩
  · obtain rfl := Option.some.inj h
    exact ⟨hi.del _, trivial⟩
  · obtain rfl := Option.some.inj h
    exact ⟨hi, trivial⟩
  · obtain rfl := Option.some.inj h
    exact ⟨hi.fetch hok, trivial⟩
  · cases h

/-- Every safe event keeps the invariant. -/
theorem Invariant.step (hi : w.Invariant) {e : Event Content} (hsafe : e.Safe w)
    {w' : World Content} (h : w.step e = some w') : w'.Invariant := by
  cases e with
  | call r =>
    obtain rfl := Option.some.inj h
    refine ⟨hi.distinct, hi.bounded, hi.nonneg, hi.hashes, fun c hc => ?_, hi.pages⟩
    rcases List.mem_append.mp hc with hold | hnew
    · exact hi.calls c hold
    · obtain rfl := List.mem_singleton.mp hnew
      trivial
  | roundTrip k =>
    obtain ⟨c, hc, hmap⟩ := Option.bind_eq_some_iff.mp h
    obtain ⟨r, hr, rfl⟩ := Option.map_eq_some_iff.mp hmap
    obtain ⟨hinv, hcall⟩ := hi.roundTrip (hi.calls c (List.mem_of_getElem? hc)) (hsafe c hc) hr
    exact hinv.setCall k hcall
  | abort k =>
    obtain rfl := Option.some.inj h
    exact hi.setCall k trivial
  | listExpires userId =>
    obtain rfl := Option.some.inj h
    exact hi.del _
  | hashExpires id =>
    simp only [World.step] at h
    split at h
    · obtain rfl := Option.some.inj h
      exact hi.del _
    · cases h

end World

/-- In every run whose transactions find what they expect, whatever else is interleaved,
expires or fails: the cache is intact in every state. -/
theorem notificationCache_intact {events : List (Event Content)} {w : World Content}
    (hrun : Run (Restrict (Graph World.step) fun w e => e.Safe w) World.initial events w) :
    w.Intact :=
  World.Invariant.intact <|
    hrun.invariant (fun _ _ _ hi h => World.Invariant.step hi h.1 h.2) World.Invariant.initial

/-- A notification without anything to carry along. -/
def plain (id : String) : INotification Unit := ⟨id, false, "2026-01-01T00:00:00Z", ()⟩

/-- Two requests miss the cache and backfill it: both delete the list, then both fill it, and a
page is read. -/
def racingBackfills : List (Event Unit) :=
  [.call (.backfillNotifications "user" [plain "n"] 200),
    .call (.backfillNotifications "user" [plain "n"] 200), .roundTrip 0, .roundTrip 1,
    .roundTrip 0, .roundTrip 1, .call (.getUserNotifications "user" 1 20), .roundTrip 2,
    .roundTrip 2]

/-- A notification that is not cached is marked as read. -/
def lateMark : List (Event Unit) := [.call (.markNotificationRead "n"), .roundTrip 0]

/-- Two backfills leave an identifier twice; a late mark leaves a hash without content. -/
theorem notificationCache_races :
    (∃ w, Run (Graph World.step) World.initial racingBackfills w ∧
      w.lists "user" = ["n", "n"] ∧ w.pages.map (·.map (·.id)) = [["n", "n"]] ∧ ¬ w.Intact) ∧
    ∃ w, Run (Graph World.step) World.initial lateMark w ∧
      (w.hashes "n").any (fun h => h.data.isNone && !h.expires) = true ∧ ¬ w.Intact := by
  constructor
  · obtain ⟨w, hrun, hw⟩ : ∃ w, Run (Graph World.step) World.initial racingBackfills w ∧
        decide (w.lists "user" = ["n", "n"] ∧
          w.pages.map (·.map (·.id)) = [["n", "n"]]) = true := exec_any (by decide +kernel)
    obtain ⟨hlist, hpage⟩ := of_decide_eq_true hw
    refine ⟨w, hrun, hlist, hpage, fun hintact => ?_⟩
    have hnodup := hintact.distinct "user"
    rw [hlist] at hnodup
    exact absurd hnodup (by decide)
  · obtain ⟨w, hrun, hw⟩ : ∃ w, Run (Graph World.step) World.initial lateMark w ∧
        (w.hashes "n").any (fun h => h.data.isNone && !h.expires) = true :=
      exec_any (by decide +kernel)
    refine ⟨w, hrun, hw, fun hintact => ?_⟩
    obtain ⟨h, hget, hbare⟩ := (Option.any_eq_true _ _).mp hw
    have hdata := (hintact.complete "n" h hget).1
    simp only [Option.isNone_eq_false_iff.mpr hdata, Bool.false_and, Bool.false_eq_true] at hbare

/-- A push between two backfills, a mark of what is there, and a clearing. -/
def orderly : List (Event Unit) :=
  [.call (.backfillNotifications "user" [plain "n"] 200), .roundTrip 0, .roundTrip 0,
    .call (.pushNotification "user" (plain "m") 200), .roundTrip 1,
    .call (.markNotificationsRead ["n", "m"]), .roundTrip 2,
    .call (.getUserNotifications "user" 1 20), .roundTrip 3, .hashExpires "n", .roundTrip 3,
    .call (.clearNotificationCaches ["user"] ["n"]), .roundTrip 4, .roundTrip 4, .roundTrip 4,
    .roundTrip 4]

/-- An orderly run keeps the cache intact. -/
theorem notificationCache_intact_orderly :
    ∃ w, Run (Restrict (Graph World.step) fun w e => e.Safe w) World.initial orderly w ∧
      w.pages.map (·.map (·.id)) = [["m"]] ∧ w.lists "user" = [] ∧ w.Intact := by
  obtain ⟨w, hexec, hw⟩ := (Option.any_eq_true _ _).mp
    (show (exec (fun w (e : Event Unit) => if decide (e.Safe w) then w.step e else none)
        World.initial orderly).any (fun w => decide (w.pages.map (·.map (·.id)) = [["m"]] ∧
          w.lists "user" = [])) = true by decide +kernel)
  have hrun :=
    exec_restrict (C := fun w (e : Event Unit) => e.Safe w) (fun _ _ h => of_decide_eq_true h) hexec
  obtain ⟨hpages, hlist⟩ := of_decide_eq_true hw
  exact ⟨w, hrun, hpages, hlist, notificationCache_intact hrun⟩

end Ascendance.NotificationCache
