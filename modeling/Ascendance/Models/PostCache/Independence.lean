import Ascendance.Models.PostCache.Runs

/-!
# Independence of posts

An event about another post is invisible, and every other event acts on the client
without the other posts as it acts on the client. Induction over a run then drops the
invisible events from it.
-/

namespace Ascendance.PostCache

open Ascendance.Core

variable {p q : String} {c : Client}

/-- Interactions with other posts are invisible. -/
theorem Client.step_hidden (h : c.Formed) {e : Event} (he : e.concerns p = false) :
    (c.step e).seen p = c.seen p := by
  cases e with
  | made | fetched | dropped | favorite | favoriteFails | deleted => cases he
  | like m =>
    have hne : m.postPublicId ≠ p := ne_of_beq_false he
    refine Client.ext (hidden_updateCaches (interaction_liked _) hne) (funext fun m' => ?_) rfl
    change (if m'.postPublicId = p then
      (Function.update c.likeContext m _ m').map _ else none) = _
    split
    · next hp =>
      rw [Function.update_of_ne]
      · exact (if_pos hp).symm
      · rintro rfl
        exact hne hp
    · next hp => exact (if_neg hp).symm
  | likeSucceeds m likes isLikedByViewer =>
    exact Client.ext (hidden_updateCaches (interaction_confirmed _ _) (ne_of_beq_false he)) rfl rfl
  | likeFails m =>
    exact Client.ext (hidden_rollBack (ne_of_beq_false he) fun e hmem => (h.of_mem hmem).1) rfl rfl
  | likeUpdate imageId newLikes =>
    exact Client.ext (hidden_updateCaches (interaction_counted _) (ne_of_beq_false he)) rfl rfl
  | reposted postPublicId =>
    exact Client.ext (hidden_updateCaches interaction_reposted (ne_of_beq_false he)) rfl rfl
  | unreposted postPublicId =>
    exact Client.ext (hidden_updateCaches interaction_unreposted (ne_of_beq_false he)) rfl rfl
  | edited publicId body editedAt =>
    exact Client.ext (hidden_updateCaches (interaction_edited _ _) (ne_of_beq_false he)) rfl rfl

/-- The context of a like keeps what is seen of the post. -/
private theorem likeContext_seen (m : Mutation) : ((c.seen m.postPublicId).likeContext m).getD [] =
    ((c.likeContext m).getD []).map fun e => (e.1, seenPost m.postPublicId e.2) := by
  change Option.getD (if m.postPublicId = m.postPublicId then
    (c.likeContext m).map _ else none) [] = _
  rw [if_pos rfl]
  cases c.likeContext m with
  | none => rfl
  | some l => rfl

/-- The rollback of a like acts on what is seen of the post. -/
theorem Client.likeOnError_seen (h : c.Formed) (m : Mutation) :
    (c.likeOnError m).seen m.postPublicId = (c.seen m.postPublicId).likeOnError m := by
  refine Client.ext ?_ rfl rfl
  change _ = Client.rollBack m.postPublicId (((c.seen m.postPublicId).likeContext m).getD []) _
  rw [likeContext_seen]
  exact seen_rollBack fun e hmem => (h.of_mem hmem).2

/-- A new like acts on what is seen of the post. -/
theorem Client.like_seen {m : Mutation} (h : c.Tidy m.postPublicId) :
    (c.step (.like m)).seen m.postPublicId = (c.seen m.postPublicId).step (.like m) := by
  refine Client.ext ?_ (funext fun m' => ?_) rfl
  · change _ = updatePostCaches m.postPublicId
      (likedOptimistically ((c.seen m.postPublicId).shouldLike m.postPublicId)) _
    rw [Client.shouldLike_seen h]
    exact seen_updateCaches (interaction_liked _)
  · change (if m'.postPublicId = m.postPublicId then
      (Function.update c.likeContext m (some (c.previousPosts m.postPublicId)) m').map _
      else none) = Function.update (c.seen m.postPublicId).likeContext m
        (some ((c.seen m.postPublicId).previousPosts m.postPublicId)) m'
    rw [Function.update_apply, Function.update_apply, Client.previousPosts_seen]
    by_cases hm : m' = m
    · subst hm
      rw [if_pos rfl, if_pos rfl, if_pos rfl]
      rfl
    · rw [if_neg hm, if_neg hm]
      rfl

/-- A new favorite acts on what is seen of any post, by the detail query alone. -/
theorem Client.favorite_seen (m : Mutation) (shouldFavorite : Bool) :
    (c.step (.favorite m shouldFavorite)).seen p =
      (c.seen p).step (.favorite m shouldFavorite) := by
  have hdetail : ∀ data, seenData p (detailKey m.postPublicId) data = withoutOthers p data :=
    fun data => if_pos (detailKey_filter _)
  refine Client.ext ?_ rfl (funext fun m' => ?_)
  · apply OrderedMap.mapValues_modify
    intro data
    rw [hdetail, hdetail]
    exact (favorited_withoutOthers shouldFavorite data).symm
  · change (Function.update c.favoriteContext m
      (some (getQueryData c.queries (detailKey m.postPublicId))) m').map (withoutOthers p) =
        Function.update (c.seen p).favoriteContext m
          (some (getQueryData (c.seen p).queries (detailKey m.postPublicId))) m'
    rw [Function.update_apply, Function.update_apply, getQueryData_seen, hdetail]
    split <;> rfl

/-- The rollback of a favorite acts on what is seen of any post. -/
theorem Client.favoriteOnError_seen (m : Mutation) :
    (c.favoriteOnError m).seen p = (c.seen p).favoriteOnError m := by
  have hcontext : (c.seen p).favoriteContext m = (c.favoriteContext m).map (withoutOthers p) :=
    rfl
  unfold Client.favoriteOnError
  rw [hcontext]
  cases c.favoriteContext m with
  | none => rfl
  | some data =>
    simp only [Option.map_some, truthy_withoutOthers]
    split
    · refine Client.ext ?_ rfl rfl
      have hset := OrderedMap.mapValues_set (seenData p) c.queries (detailKey m.postPublicId) data
      rw [seenData, if_pos (detailKey_filter _)] at hset
      exact hset
    · rfl

/-- The other events act on what is seen. -/
theorem Client.step_seen (h : c.Tidy p) {e : Event} (he : e.concerns p = true) :
    (c.step e).seen p = (c.seen p).step (e.seen p) := by
  cases e with
  | made key =>
    refine Client.ext ?_ rfl rfl
    change OrderedMap.mapValues (seenData p) (if key ∈ c.queries then c.queries
      else c.queries.set key (.leaf .undefined)) = _
    rw [apply_ite (OrderedMap.mapValues (seenData p)), OrderedMap.mapValues_set,
      seenData_undefined]
    exact if_congr OrderedMap.mem_mapValues.symm rfl rfl
  | fetched key data =>
    exact Client.ext (OrderedMap.mapValues_set (seenData p) c.queries key data) rfl rfl
  | dropped key =>
    exact Client.ext (OrderedMap.mapValues_delete (seenData p) c.queries key) rfl rfl
  | like m =>
    obtain rfl : m.postPublicId = p := eq_of_beq he
    exact Client.like_seen h
  | likeSucceeds m likes isLikedByViewer =>
    obtain rfl : m.postPublicId = p := eq_of_beq he
    exact Client.ext (seen_updateCaches (interaction_confirmed likes isLikedByViewer)) rfl rfl
  | likeFails m =>
    obtain rfl : m.postPublicId = p := eq_of_beq he
    exact Client.likeOnError_seen h.formed m
  | favorite m shouldFavorite => exact Client.favorite_seen m shouldFavorite
  | favoriteFails m => exact Client.favoriteOnError_seen m
  | likeUpdate imageId newLikes =>
    obtain rfl : imageId = p := eq_of_beq he
    exact Client.ext (seen_updateCaches (interaction_counted newLikes)) rfl rfl
  | reposted postPublicId =>
    obtain rfl : postPublicId = p := eq_of_beq he
    exact Client.ext (seen_updateCaches interaction_reposted) rfl rfl
  | unreposted postPublicId =>
    obtain rfl : postPublicId = p := eq_of_beq he
    exact Client.ext (seen_updateCaches interaction_unreposted) rfl rfl
  | edited publicId body editedAt =>
    obtain rfl : publicId = p := eq_of_beq he
    exact Client.ext (seen_updateCaches (interaction_edited body editedAt)) rfl rfl
  | deleted publicId => exact Client.ext seen_deleted rfl rfl

/-- A run seen from a post is the run of its visible events on what is seen. -/
theorem Client.run_seen (h : c.Tidy p) {es : List Event} (hes : ∀ e ∈ es, e.Named p) :
    (c.run es).seen p = (c.seen p).run ((es.filter (Event.concerns p)).map (Event.seen p)) := by
  induction es generalizing c with
  | nil => rfl
  | cons e es ih =>
    have htail := ih (h.step (hes e List.mem_cons_self))
      fun e' he' => hes e' (List.mem_cons_of_mem e he')
    change ((c.step e).run es).seen p = _
    rw [htail]
    cases he : e.concerns p with
    | true =>
      rw [Client.step_seen h he, List.filter_cons_of_pos he]
      rfl
    | false =>
      rw [Client.step_hidden h.formed he, List.filter_cons_of_neg (by simp [he])]

/-- What a copy shows of the post: every property outside the searched ones. -/
theorem copies_of_seen {d d' : CacheData} (h : withoutOthers p d = withoutOthers p d') {k : String}
    (hk : k ∉ searched) : (copies p d).map (read k) = (copies p d').map (read k) := by
  have hcopies : ∀ data : CacheData,
      (copies p data).map (read k) = (copies p (withoutOthers p data)).map (read k) := by
    intro data
    rw [copies_seenPost, List.map_map]
    apply List.map_congr_left
    intro post hpost
    exact (read_bare (isPost_of_mem_copies hpost) hk _).symm
  rw [hcopies d, hcopies d', h]

/-- Two clients that look the same from a post show the same of every copy of it. -/
theorem Client.reads_of_seen {c d : Client} (h : c.seen p = d.seen p) (key : QueryKey)
    (hkey : postInteractionQueryFilter key = true) {k : String} (hk : k ∉ searched) :
    (copies p (getQueryData c.queries key)).map (read k) =
      (copies p (getQueryData d.queries key)).map (read k) := by
  apply copies_of_seen (p := p) ?_ hk
  have hdata := congrArg (fun s : Client => getQueryData s.queries key) h
  simp only [getQueryData_seen, seenData, if_pos hkey] at hdata
  exact hdata

/-- In every run the likes, failures, live counts, reposts and edits of other posts leave no trace
outside their own properties: without them the run ends in the same cache up to these, and every
copy of the post shows the same. -/
theorem posts_independent (p : String) {es : List Event} (hes : ∀ e ∈ es, e.Named p) :
    let whole := Client.initial.run es
    let own := Client.initial.run (es.filter (Event.concerns p))
    whole.seen p = own.seen p ∧
      ∀ key, postInteractionQueryFilter key = true → ∀ k ∉ searched,
        (copies p (getQueryData whole.queries key)).map (read k) =
          (copies p (getQueryData own.queries key)).map (read k) := by
  have hwhole := Client.run_seen Client.tidy_initial hes
  have hnamed : ∀ e ∈ es.filter (Event.concerns p), e.Named p :=
    fun e he => hes e (List.mem_of_mem_filter he)
  have hown := Client.run_seen Client.tidy_initial hnamed
  rw [List.filter_filter] at hown
  simp only [Bool.and_self] at hown
  have hseen := hwhole.trans hown.symm
  exact ⟨hseen, fun key hkey k hk => Client.reads_of_seen hseen key hkey hk⟩

/-- A post with its likes and with the post that it reposts. -/
def cachedPost (publicId : String) (likes : ℤ) (liked : Bool) (repostOf : CacheData) : CacheData :=
  .object [("publicId", .leaf (.string publicId)), ("likes", .leaf (.number likes)),
    ("isLikedByViewer", .leaf (.bool liked)), ("repostOf", repostOf)]

/-- The key of the feed in the examples. -/
def feedKey : QueryKey := [.text "posts", .missing]

/-- A feed of one page: a post and a repost of it, which shows another count. -/
def onePage : CacheData :=
  .object [("pages", .array [.object [("data", .array
    [cachedPost "a" 3 false (.leaf .null),
      cachedPost "b" 0 false (cachedPost "a" 5 false (.leaf .null))])]])]

/-- The feed and the post are opened. -/
def opened : List Event :=
  [.made feedKey, .fetched feedKey onePage,
    .fetched (Client.detailKey "a") (cachedPost "a" 3 false (.leaf .null))]

/-- Two posts are liked, one of the likes is refused. -/
def twoLikes : List Event :=
  opened ++ [.like ⟨0, "a"⟩, .like ⟨1, "b"⟩, .likeUpdate "b" 7, .likeFails ⟨1, "b"⟩,
    .likeSucceeds ⟨0, "a"⟩ 4 true]

/-- The refused like of the other post leaves no trace. -/
theorem posts_independent_twoLikes :
    (Client.initial.run twoLikes).seen "a" =
      (Client.initial.run (opened ++ [.like ⟨0, "a"⟩, .likeSucceeds ⟨0, "a"⟩ 4 true])).seen
        "a" := by
  refine (posts_independent "a" ?_).1
  intro e he
  simp only [twoLikes, opened, List.cons_append, List.nil_append, List.mem_cons, List.not_mem_nil,
    or_false] at he
  rcases he with rfl | rfl | rfl | rfl | rfl | rfl | rfl | rfl
  · exact trivial
  · exact fun hkey => absurd hkey (by decide)
  · exact fun _ => named_object.mpr rfl
  all_goals exact trivial

end Ascendance.PostCache
