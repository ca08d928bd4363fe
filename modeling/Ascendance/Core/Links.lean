import Ascendance.Core.Isolation

/-!
# Links between documents

A document may need another one, under whose key a document that serves it has to
be stored. Two transactions that write different documents may break a link together;
they do not when every transaction that comes to need a document also writes it.
-/

namespace Ascendance.Core

variable {κ : Type*} {δ : κ → Type*}

/-- Which documents a document needs, and when the document under a key serves it. -/
structure Links (κ : Type*) (δ : κ → Type*) where
  needs : ∀ k, δ k → κ → Prop
  serves : ∀ _ o : κ, δ o → Prop

namespace Links

variable (L : Links κ δ)

/-- The document under a key is there and serves another one. -/
def Served (db : Database κ δ) (k o : κ) : Prop := ∃ e, db.doc o = some e ∧ L.serves k o e

/-- Every document has what it needs. -/
def Linked (db : Database κ δ) : Prop :=
  ∀ k d o, db.doc k = some d → L.needs k d o → L.Served db k o

/-- A document is needed. -/
def Cited (db : Database κ δ) (o : κ) : Prop := ∃ k d, db.doc k = some d ∧ L.needs k d o

/-- What is needed has been written. -/
def Known (c : Committed κ δ) : Prop := ∀ o, L.Cited c.db o → 0 < c.revision o

/-- What a transaction needs was needed before, was written, or is written with it. -/
def Introduces (snapshot : Committed κ δ) (after : Database κ δ) : Prop :=
  ∀ o, L.Cited after o →
    L.Cited snapshot.db o ∨ 0 < snapshot.revision o ∨ after.doc o ≠ snapshot.db.doc o

/-- A document comes to need another one. -/
def Gains (before after : Database κ δ) (k o : κ) : Prop :=
  (∃ d, after.doc k = some d ∧ L.needs k d o) ∧ ∀ d, before.doc k = some d → ¬ L.needs k d o

/-- What comes to be needed is changed with it. -/
def Touches (before after : Database κ δ) : Prop :=
  ∀ k o, L.Gains before after k o → after.doc o ≠ before.doc o

/-- What is needed now was needed already when its document was last written. -/
def Settled (earlier later : Committed κ δ) : Prop :=
  ∀ k o, later.revision o = earlier.revision o → ¬ L.Gains earlier.db later.db k o

variable {L} {serial : κ → Bool}

/-- Nothing changes between a commit and itself. -/
theorem Settled.refl (c : Committed κ δ) : L.Settled c c := by
  rintro k o - ⟨⟨d, hd, hneeds⟩, hnot⟩
  exact hnot d hd hneeds

/-- What is settled over two stretches is settled over both. -/
theorem Settled.trans {a b c : Committed κ δ} (hab : Committed.Since serial a b)
    (hbc : Committed.Since serial b c) (h : L.Settled a b) (h' : L.Settled b c) :
    L.Settled a c := by
  rintro k o hrev ⟨hgain, hnot⟩
  have hle := (hab k).1
  have hrevab := (hab o).1
  have hrevbc := (hbc o).1
  by_cases hmid : ∃ d, b.db.doc k = some d ∧ L.needs k d o
  · exact h k o (by omega) ⟨hmid, hnot⟩
  · exact h' k o (by omega) ⟨hgain, fun d hd hneeds => hmid ⟨d, hd, hneeds⟩⟩

/-- A document that is cited after a transaction was known at its snapshot or is written by it. -/
theorem Known.of_introduces {snapshot : Committed κ δ} {after : Database κ δ}
    (h : L.Known snapshot) (hintro : L.Introduces snapshot after) {o : κ} (ho : L.Cited after o) :
    0 < snapshot.revision o ∨ after.doc o ≠ snapshot.db.doc o := by
  rcases hintro o ho with hcited | hrest
  · exact .inl (h o hcited)
  · exact hrest

variable [DecidableEq κ] [∀ k, DecidableEq (δ k)] {snapshot current : Committed κ δ}
  {after : Database κ δ}

/-- A commit leaves what is needed known. -/
theorem known_commit (hsnapshot : L.Known snapshot) (hcurrent : L.Known current)
    (hsince : Committed.Since serial snapshot current) (hintro : L.Introduces snapshot after) :
    L.Known (snapshot.commit current after) := by
  rintro o ⟨k, d, hd, hneeds⟩
  have hle : current.revision o ≤ (snapshot.commit current after).revision o := by
    change _ ≤ if after.doc o = snapshot.db.doc o then _ else _
    split <;> omega
  by_cases hk : after.doc k = snapshot.db.doc k
  · have hcur : current.db.doc k = some d := (Database.doc_merge_same hk).symm.trans hd
    exact (hcurrent o ⟨k, d, hcur, hneeds⟩).trans_le hle
  · have haft : after.doc k = some d := (Database.doc_merge_changed hk).symm.trans hd
    rcases hsnapshot.of_introduces hintro ⟨k, d, haft, hneeds⟩ with hpos | hchanged
    · exact (hpos.trans_le (hsince o).1).trans_le hle
    · have hsucc : (snapshot.commit current after).revision o = current.revision o + 1 :=
        if_neg hchanged
      omega

/-- Links survive a commit when nothing was taken away since the snapshot that the transaction
comes to need, and nothing is taken away that came to be needed since the snapshot. -/
theorem linked_commit (hcurrent : L.Linked current.db) (hafter : L.Linked after)
    (hsince : Committed.Since serial snapshot current)
    (hfresh : Committed.Fresh snapshot current after)
    (hgained : ∀ k o, L.Gains snapshot.db after k o → after.doc o = snapshot.db.doc o →
      L.Served current.db k o)
    (hlost : ∀ k o, L.Gains snapshot.db current.db k o → after.doc o ≠ snapshot.db.doc o →
      after.doc k = snapshot.db.doc k → L.Served after k o) :
    L.Linked (snapshot.commit current after).db := by
  intro k d o hd hneeds
  have hserved : ∀ {db}, (snapshot.commit current after).db.doc o = db.doc o →
      L.Served db k o → L.Served (snapshot.commit current after).db k o := by
    rintro db hdoc ⟨e, he, hserves⟩
    exact ⟨e, hdoc.trans he, hserves⟩
  by_cases hk : after.doc k = snapshot.db.doc k
  · have hdk : current.db.doc k = some d := (Database.doc_merge_same hk).symm.trans hd
    by_cases ho : after.doc o = snapshot.db.doc o
    · exact hserved (Database.doc_merge_same ho) (hcurrent k d o hdk hneeds)
    · refine hserved (Database.doc_merge_changed ho) ?_
      by_cases hbefore : ∃ d', snapshot.db.doc k = some d' ∧ L.needs k d' o
      · obtain ⟨d', hd', hneeds'⟩ := hbefore
        exact hafter k d' o (hk.trans hd') hneeds'
      · exact hlost k o ⟨⟨d, hdk, hneeds⟩, fun d' hd' hn => hbefore ⟨d', hd', hn⟩⟩ ho hk
  · have hdk : after.doc k = some d := (Database.doc_merge_changed hk).symm.trans hd
    by_cases ho : after.doc o = snapshot.db.doc o
    · refine hserved (Database.doc_merge_same ho) ?_
      by_cases hbefore : ∃ d', snapshot.db.doc k = some d' ∧ L.needs k d' o
      · obtain ⟨d', hd', hneeds'⟩ := hbefore
        exact hcurrent k d' o ((hsince.unchanged hfresh hk).trans hd') hneeds'
      · exact hgained k o ⟨⟨d, hdk, hneeds⟩, fun d' hd' hn => hbefore ⟨d', hd', hn⟩⟩ ho
    · exact hserved (Database.doc_merge_changed ho) (hafter k d o hdk hneeds)

/-- Links survive the commits of transactions that touch what they come to need. -/
theorem linked_commit_of_touches (hcurrent : L.Linked current.db) (hafter : L.Linked after)
    (hsince : Committed.Since serial snapshot current)
    (hfresh : Committed.Fresh snapshot current after) (hsettled : L.Settled snapshot current)
    (htouches : L.Touches snapshot.db after) : L.Linked (snapshot.commit current after).db :=
  linked_commit hcurrent hafter hsince hfresh
    (fun k o hgains ho => absurd ho (htouches k o hgains))
    (fun k o hgains ho _ => absurd hgains (hsettled k o (hfresh o ho)))

/-- Such a commit leaves what was needed settled. -/
theorem settled_commit (hsince : Committed.Since serial snapshot current)
    (hfresh : Committed.Fresh snapshot current after) (htouches : L.Touches snapshot.db after) :
    L.Settled current (snapshot.commit current after) := by
  rintro k o hrev ⟨⟨d, hd, hneeds⟩, hnot⟩
  have ho : after.doc o = snapshot.db.doc o := by
    by_contra ho
    have hsucc : (snapshot.commit current after).revision o = current.revision o + 1 := if_neg ho
    omega
  by_cases hk : after.doc k = snapshot.db.doc k
  · exact hnot d ((Database.doc_merge_same hk).symm.trans hd) hneeds
  · have hdk : after.doc k = some d := (Database.doc_merge_changed hk).symm.trans hd
    refine htouches k o ⟨⟨d, hdk, hneeds⟩, fun d' hd' hneeds' => ?_⟩ ho
    exact hnot d' ((hsince.unchanged hfresh hk).trans hd') hneeds'

end Links

end Ascendance.Core
