import Ascendance.Core.KeyPages
import Ascendance.Models.Feed.CursorPayload
import Ascendance.Models.NotificationCache.Integrity

/-!
# The pages of a user's notifications

The first page comes from the list of the cache, or from the database when the list
cannot fill it. The timestamp of a full page's last notification is the cursor of the
next page, which comes from the database. The cache is what pushes and backfills have
made of it, each of them by itself, and what is stored grows between the requests.
-/

namespace Ascendance.NotificationCache

open Ascendance.Core Ascendance.Core.Keyset

/-- What paging reads of a notification besides its identifier. -/
structure Details where
  /-- Milliseconds; the servers take it from their clock, which is past zero. -/
  date : ℕ
  targetType : Option String
  positive : 0 < date
  deriving DecidableEq

/-- A notification with the details that are shown. -/
abbrev Notification := INotification Details

deriving instance DecidableEq for INotification

/-- When the notification was created. -/
abbrev Notification.date (n : Notification) : ℕ := n.content.date

/-- The bound on a cached list. -/
def MAX_NOTIFICATIONS_PER_USER : ℕ := 200

/-- A user's notifications, and the cache. -/
structure Store where
  /-- Every notification there has been. Identifiers are not used again. -/
  created : List Notification
  stored : List Notification
  world : World Details

/-- What can happen to the notifications of a user. -/
inductive Change
  | create (n : Notification)
  /-- A stored notification is pushed: after its creation, or again when that is repeated. -/
  | push (n : Notification)
  /-- The notifications that the database returned, in its order. -/
  | backfill (notifications : List Notification)
  | listExpires
  | hashExpires (id : String)
  /-- `clearNotificationCaches` of the user. -/
  | clear (ids : List String)
  | delete (ids : List String)

/-- The change deletes nothing that is stored. -/
def Change.Keeps : Change → Prop
  | .delete _ => False
  | .create _ | .push _ | .backfill _ | .listExpires | .hashExpires _ | .clear _ => True

/-- `find` sorted by `timestamp: -1`, with a limit. The order of equal timestamps is the
database's. -/
def Found (stored notifications : List Notification) (limit : ℕ) : Prop :=
  ∃ sorted : List Notification, sorted.Perm stored ∧ Ordered Notification.date sorted ∧
    notifications = sorted.take limit

namespace Store

variable (userId : String) (s : Store)

/-- Nothing is stored and nothing cached. -/
def initial : Store := ⟨[], [], World.initial⟩

/-- A change, of the cache one call with nothing in between. The clock of the servers does not
go back, so what is created is not older than what there has been. -/
inductive Step : Store → Change → Store → Prop
  | create {s : Store} {n : Notification} :
      n.id ∉ s.created.map (·.id) → (∀ m ∈ s.created, m.date ≤ n.date) →
      Step s (.create n) { s with created := s.created ++ [n], stored := s.stored ++ [n] }
  | push {s : Store} {n : Notification} : n ∈ s.stored →
      Step s (.push n) { s with world := s.world.push userId n MAX_NOTIFICATIONS_PER_USER }
  | backfill {s : Store} {notifications : List Notification} :
      Found s.stored notifications MAX_NOTIFICATIONS_PER_USER →
      Step s (.backfill notifications) { s with
        world := (s.world.del [.list userId]).refill userId notifications
          MAX_NOTIFICATIONS_PER_USER }
  | listExpires {s : Store} : Step s .listExpires { s with world := s.world.del [.list userId] }
  | hashExpires {s : Store} {id : String} :
      Step s (.hashExpires id) { s with world := s.world.del [.hash id] }
  | clear {s : Store} {ids : List String} :
      Step s (.clear ids) { s with
        world := s.world.del (World.clearKeys [userId]
          ((s.world.lists userId).foldl addId (ids.foldl addId []))) }
  | delete {s : Store} {ids : List String} :
      Step s (.delete ids) { s with stored := s.stored.filter (·.id ∉ ids) }

end Store

/-- `getUserNotifications` of the first page: the identifiers, then their hashes. -/
def World.getUserNotifications (w : World Details) (userId : String) (limit : ℕ) :
    List Notification :=
  (lRange (w.lists userId) 0 (limit - 1)).filterMap (toNotification w.hashes)

/-- The notifications of messages. -/
def messageNotificationIds (notifications : List Notification) : List String :=
  (notifications.filter fun n => n.content.targetType = some "conversation").map (·.id)

/-- What a request returns, the identifiers it clears the cache of, and the notifications it
starts a backfill with. -/
structure Answer where
  notifications : List Notification
  clears : Option (List String)
  backfills : Option (List Notification)

/-- A page of notifications. -/
structure Page where
  data : List Notification
  hasMore : Bool
  nextCursor : Option ℕ

namespace Store

variable (userId : String) (s : Store)

section Handler

variable (sort : List Notification → List Notification)

/-- Which of the identifiers are stored. -/
def findExistingIds (ids : List String) : List String :=
  (s.stored.filter fun n => n.id ∈ ids).map (·.id)

/-- The list of the cache fills the page, and all the conversations in it are stored. -/
def isHit (limit : ℕ) : Bool :=
  let notifications := s.world.getUserNotifications userId limit
  let ids := messageNotificationIds notifications
  let existingIds := s.findExistingIds (ids.filter Feed.isObjectId)
  decide (limit ≤ notifications.length) && ids.all fun id => decide (id ∈ existingIds)

/-- `GetNotificationsQueryHandler.execute`; `sort` is the order of this query. -/
def execute (limit : ℕ) (before : Option ℕ) : Answer :=
  if before.any (· ≠ 0) then
    ⟨(sort (older Notification.date (before.getD 0) s.stored)).take limit, none, none⟩
  else
    let notifications := s.world.getUserNotifications userId limit
    if s.isHit userId limit then ⟨notifications, none, none⟩
    else
      let validIds := (messageNotificationIds notifications).filter Feed.isObjectId
      let allRecentNotifications := (sort s.stored).take MAX_NOTIFICATIONS_PER_USER
      ⟨allRecentNotifications.take limit,
        if limit ≤ notifications.length then some validIds else none,
        if allRecentNotifications.length > 0 then some allRecentNotifications else none⟩

/-- `NotificationController.getNotifications`. -/
def getNotifications (limit : ℕ) (before : Option ℕ) : Page :=
  let notifications := (s.execute userId sort limit before).notifications
  let hasMore := notifications.length == limit
  ⟨notifications, hasMore, if hasMore then notifications.getLast?.map Notification.date else none⟩

end Handler

/-- Request the first page and then follow the cursors: request `k` finds the store
`stores k`. -/
def readAll (stores : ℕ → Store) (sort : ℕ → List Notification → List Notification)
    (limit : ℕ) : ℕ → ℕ → Option ℕ → Option (List Notification)
  | 0, _, _ => none
  | fuel + 1, k, before =>
    let page := (stores k).getNotifications userId (sort k) limit before
    match page.nextCursor with
    | none => some page.data
    | some cursor =>
      (readAll stores sort limit fuel (k + 1) (some cursor)).map (page.data ++ ·)

/-- What is stored in `s` comes once each, in order. -/
def Covers (notifications : List Notification) : Prop :=
  (∀ n ∈ s.stored, (notifications.map (·.id)).count n.id = 1) ∧
    Ordered Notification.date notifications

/-- Following the cursors ends and has returned everything that was stored at its start. -/
def Complete (stores : ℕ → Store) (sort : ℕ → List Notification → List Notification)
    (limit : ℕ) : Prop :=
  ∃ fuel notifications, readAll userId stores sort limit fuel 0 none = some notifications ∧
    (stores 0).Covers notifications

/-- A later store, with nothing deleted in between. -/
def Grows (t : Store) : Prop :=
  ∃ changes, Run (Restrict (Step userId) fun _ c => c.Keeps) s changes t

/-- A page of the cache continues in the database: it is in order, whatever is stored and not
older than its last notification is in it, and no page of the older ones ends in a tie. -/
def Continues (page : List Notification) (limit : ℕ) : Prop :=
  Ordered Notification.date page ∧ ∀ last ∈ page.getLast?,
    (∀ n ∈ s.stored, n.id ∈ page.map (·.id) ∨ n.date < last.date) ∧
      Untied Notification.date limit (older Notification.date last.date s.stored)

/-- The first page is one of the cache that continues in the database; or it is of the database,
what is stored fits the page or the page what is fetched for it, and no page ends in a tie. -/
def Seamless (limit : ℕ) : Prop :=
  if s.isHit userId limit then s.Continues (s.world.getUserNotifications userId limit) limit
  else (limit ≤ MAX_NOTIFICATIONS_PER_USER ∨ s.stored.length ≤ MAX_NOTIFICATIONS_PER_USER) ∧
    Untied Notification.date limit s.stored

end Store

/-- A hash holds what was stored last or what it held. -/
theorem data_storeNotification {hashes : String → Option (Hash Details)} {n m : Notification}
    {id : String} {h : Hash Details} (hget : storeNotification hashes n id = some h)
    (hdata : h.data = some m) : m = n ∨ hashes id = some h := by
  unfold storeNotification at hget
  by_cases hid : id = n.id
  · subst hid
    rw [Function.update_self] at hget
    obtain rfl := Option.some.inj hget
    exact .inl (Option.some.inj hdata).symm
  · rw [Function.update_of_ne hid] at hget
    exact .inr hget

/-- A stored hash holds one of the stored notifications or the old one. -/
private theorem data_storeAll {hashes : String → Option (Hash Details)} {ns : List Notification}
    {m : Notification} {id : String} {h : Hash Details}
    (hget : ns.foldl storeNotification hashes id = some h) (hdata : h.data = some m) :
    m ∈ ns ∨ hashes id = some h := by
  induction ns generalizing hashes with
  | nil => exact .inr hget
  | cons n ns ih =>
    rcases ih hget with hmem | hold
    · exact .inl (List.mem_cons_of_mem _ hmem)
    · rcases data_storeNotification hold hdata with rfl | hold
      · exact .inl List.mem_cons_self
      · exact .inr hold

namespace Store

variable {userId : String} {s t : Store}

/-- What holds of every reachable store. -/
structure Kept (s : Store) : Prop where
  ids : (s.created.map (·.id)).Nodup
  stored : s.stored.Sublist s.created
  world : s.world.Invariant
  cached : ∀ id h n, s.world.hashes id = some h → h.data = some n → n ∈ s.created

/-- The invariant holds of the empty store. -/
theorem Kept.initial : initial.Kept where
  ids := List.nodup_nil
  stored := .slnil
  world := World.Invariant.initial
  cached _ _ _ h := by cases h

/-- Keys are deleted. -/
theorem Kept.del (h : s.Kept) (keys : List Key) : Kept { s with world := s.world.del keys } where
  ids := h.ids
  stored := h.stored
  world := h.world.del keys
  cached id g n hget hdata := by
    simp only [World.del] at hget
    split at hget
    · cases hget
    · exact h.cached id g n hget hdata

/-- A push of a stored notification keeps the invariant. -/
theorem Kept.push (h : s.Kept) {n : Notification} (hn : n ∈ s.stored) :
    Kept { s with world := s.world.push userId n MAX_NOTIFICATIONS_PER_USER } where
  ids := h.ids
  stored := h.stored
  world := h.world.push userId n (by decide)
  cached id g m hget hdata := by
    rcases data_storeNotification hget hdata with rfl | hold
    · exact h.stored.subset hn
    · exact h.cached id g m hold hdata

/-- What the database returns is stored, and nothing comes twice. -/
theorem Kept.found (h : s.Kept) {ns : List Notification} {limit : ℕ}
    (hfound : Found s.stored ns limit) : ns ⊆ s.stored ∧ (ns.map (·.id)).Nodup := by
  obtain ⟨sorted, hperm, -, rfl⟩ := hfound
  refine ⟨fun n hn => hperm.subset (List.mem_of_mem_take hn), ?_⟩
  have hids := (hperm.map (·.id)).nodup_iff.mpr (h.ids.sublist (h.stored.map _))
  exact hids.sublist ((List.take_sublist limit sorted).map _)

/-- A backfill with what the database returned keeps the invariant. -/
theorem Kept.refill (h : s.Kept) {ns : List Notification}
    (hfound : Found s.stored ns MAX_NOTIFICATIONS_PER_USER) :
    Kept { s with world :=
      (s.world.del [.list userId]).refill userId ns MAX_NOTIFICATIONS_PER_USER } where
  ids := h.ids
  stored := h.stored
  world := by
    have hempty : (s.world.del [.list userId]).lists userId = [] := by simp [World.del]
    exact (h.del [.list userId]).world.refill
      (.of_empty (by decide) hempty (h.found hfound).2)
  cached id g m hget hdata := by
    rcases data_storeAll hget hdata with hmem | hold
    · exact h.stored.subset ((h.found hfound).1 hmem)
    · exact (h.del [.list userId]).cached id g m hold hdata

/-- Every change keeps the invariant. -/
theorem Kept.step (h : s.Kept) {c : Change} (hstep : Step userId s c t) : t.Kept := by
  cases hstep with
  | @create n hid _ =>
    refine ⟨?_, h.stored.append (List.Sublist.refl [n]), h.world, ?_⟩
    · rw [List.map_append, List.map_singleton]
      exact h.ids.append (List.nodup_singleton _) (by simpa using hid)
    · intro id g m hget hdata
      exact List.mem_append_left _ (h.cached id g m hget hdata)
  | push hn => exact h.push hn
  | backfill hfound => exact h.refill hfound
  | listExpires => exact h.del _
  | hashExpires => exact h.del _
  | clear => exact h.del _
  | delete => exact ⟨h.ids, List.filter_sublist.trans h.stored, h.world, h.cached⟩

/-- The invariant holds after every run. -/
theorem Kept.run {changes : List Change} (hrun : Run (Step userId) Store.initial changes s) :
    s.Kept :=
  hrun.invariant (fun _ _ _ h hstep => h.step hstep) Kept.initial

/-- A notification is determined by its identifier. -/
theorem Kept.eq_of_id (h : s.Kept) {n m : Notification} (hn : n ∈ s.created) (hm : m ∈ s.created)
    (hid : n.id = m.id) : n = m :=
  List.inj_on_of_nodup_map h.ids hn hm hid

/-- No notification is stored twice. -/
theorem Kept.nodup_stored (h : s.Kept) : s.stored.Nodup :=
  (h.ids.of_map _).sublist h.stored

/-- A notification of the cache has been created, and only whether it is read can differ. -/
theorem Kept.origin (h : s.Kept) {limit : ℕ} {p : Notification}
    (hp : p ∈ s.world.getUserNotifications userId limit) :
    ∃ m ∈ s.created, m.id = p.id ∧ m.content = p.content := by
  obtain ⟨id, -, hget⟩ := List.mem_filterMap.mp hp
  obtain ⟨g, hg, hmap⟩ := Option.bind_eq_some_iff.mp hget
  obtain ⟨m, hm, rfl⟩ := Option.map_eq_some_iff.mp hmap
  exact ⟨m, h.cached id g m hg hm, rfl, rfl⟩

/-- A cached page holds no notification twice. -/
theorem Kept.page_nodup (h : s.Kept) (limit : ℕ) :
    ((s.world.getUserNotifications userId limit).map (·.id)).Nodup :=
  h.world.hashes.page_nodup ((h.world.distinct userId).sublist (lRange_sublist _ _ _))

/-- A stored notification has the same timestamp in the cache. -/
theorem Kept.date_eq (h : s.Kept) {limit : ℕ} {n p : Notification} (hn : n ∈ s.stored)
    (hp : p ∈ s.world.getUserNotifications userId limit) (hid : n.id = p.id) :
    n.date = p.date := by
  obtain ⟨m, hm, hmid, hcontent⟩ := h.origin hp
  obtain rfl := h.eq_of_id (h.stored.subset hn) hm (hid.trans hmid.symm)
  unfold Notification.date
  rw [hcontent]

/-- A page of the cache is no longer than it was asked to be. -/
theorem length_getUserNotifications_le (w : World Details) {limit : ℕ} (hlimit : 1 ≤ limit) :
    (w.getUserNotifications userId limit).length ≤ limit := by
  unfold World.getUserNotifications
  rw [lRange_eq_take _ (by omega), Int.toNat_natCast]
  exact (List.length_filterMap_le _ _).trans (List.length_take_le _ _)

/-- What is stored and what has been created grow by the same notifications, which are not older
than what there was. -/
def Extends (s t : Store) : Prop :=
  ∃ arrived, t.stored = s.stored ++ arrived ∧ t.created = s.created ++ arrived ∧
    ∀ n ∈ arrived, ∀ m ∈ s.created, m.date ≤ n.date

/-- A store extends itself. -/
theorem Extends.refl (s : Store) : s.Extends s :=
  ⟨[], (List.append_nil _).symm, (List.append_nil _).symm, by simp⟩

/-- Extensions compose. -/
theorem Extends.trans {u : Store} (h : s.Extends t) (h' : t.Extends u) : s.Extends u := by
  obtain ⟨first, hstored, hcreated, hfirst⟩ := h
  obtain ⟨second, hstored', hcreated', hsecond⟩ := h'
  refine ⟨first ++ second, by rw [hstored', hstored, List.append_assoc],
    by rw [hcreated', hcreated, List.append_assoc], ?_⟩
  intro n hn m hm
  rcases List.mem_append.mp hn with hn | hn
  · exact hfirst n hn m hm
  · exact hsecond n hn m (hcreated ▸ List.mem_append_left _ hm)

/-- A change that removes nothing extends the store. -/
theorem Step.extends {c : Change} (h : Step userId s c t) (hkeeps : c.Keeps) : s.Extends t := by
  cases h with
  | @create n _ hclock =>
    refine ⟨[n], rfl, rfl, ?_⟩
    intro n' hn' m hm
    rw [List.mem_singleton.mp hn']
    exact hclock m hm
  | delete => exact hkeeps.elim
  | push | backfill | listExpires | hashExpires | clear => exact Extends.refl s

/-- A store that has grown extends the one before. -/
theorem Grows.extends (h : s.Grows userId t) : s.Extends t := by
  obtain ⟨changes, hrun⟩ := h
  exact hrun.relates (fun _ _ _ _ _ => trivial) Extends.refl (fun _ _ _ => Extends.trans)
    (fun _ _ _ _ hstep => hstep.2.extends hstep.1) trivial

/-- What arrives is not among the notifications older than one there was. -/
theorem Extends.older_eq (h : s.Extends t) {m : Notification} (hm : m ∈ s.created) :
    older Notification.date m.date t.stored = older Notification.date m.date s.stored := by
  obtain ⟨arrived, hstored, -, hclock⟩ := h
  have hnone : older Notification.date m.date arrived = [] := by
    unfold older
    rw [List.filter_eq_nil_iff]
    intro n hn
    simpa using hclock n hn m hm
  unfold older at hnone ⊢
  rw [hstored, List.filter_append, hnone, List.append_nil]

end Store

end Ascendance.NotificationCache
