import SambaShares.Proofs.Planning.Outcome
/-!
Sessions: requests that succeed one after the other, each planned on the document before it, which
may have been written and read again. Every document of a session is well formed, so no value of a
request opens a section or gives a setting that was not asked for: what is read back differs from
the planned document by its last line feed or an empty last line at most.
-/

namespace SambaShares

/-- The documents that requests lead to. -/
inductive Session (document : Document) : Document → Prop
  | start : Session document document
  | plan {current next : Document} {probe : Text → Bool} {request : Request}
      (session : Session document current) (planned : request.plan probe current = .ok next) :
      Session document next
  | reread {current : Document} (session : Session document current) :
      Session document (.parse current.render)

/-- What each change and each reading keeps holds of every document of a session. -/
theorem Session.invariant {document next : Document} {holds : Document → Prop}
    (session : Session document next) (first : holds document)
    (change : ∀ {current next}, Change current next → holds current → holds next)
    (reread : ∀ {current}, holds current → holds (.parse current.render)) : holds next := by
  induction session with
  | start => exact first
  | plan _ planned ih => exact change (.of_plan planned) ih
  | reread _ ih => exact reread ih

theorem Change.wellFormed {document next : Document} (change : Change document next)
    (formed : document.WellFormed) : next.WellFormed := by
  cases change with
  | added accepted managed free => exact formed.push accepted.wellFormed_toBlock
  | renewed split oldManaged accepted managed free =>
    have old := formed.blocks _ split.mem
    exact formed.exchange split.blocks (accepted.wellFormed_renewBlock old)
  | removed split managed => exact formed.without split.blocks

theorem Session.wellFormed {document next : Document} (session : Session document next)
    (formed : document.WellFormed) : next.WellFormed :=
  session.invariant formed Change.wellFormed
    (fun {current} _ => (Document.canonical_parse current.render).toWellFormed)

/-- Whatever is asked for, every document of a session is well formed, and its text is read back
with the same sections and shares. -/
theorem Session.wellFormed_and_reread {text : Text} {document : Document}
    (session : Session (.parse text) document) :
    document.WellFormed ∧ document.Reread (.parse document.render) :=
  have formed := session.wellFormed (Document.canonical_parse text).toWellFormed
  ⟨formed, formed.reread⟩

/-- A line of white space at the end of a file without a last line feed is written as an empty
line, which reading does not see. -/
theorem Session.wellFormed_and_reread_blank_end :
    let spec : ShareSpec := { name := "a".toList, path := "/x".toList }
    let document : Document := .parse "[a]\n   path = /y\n ".toList
    let next : Document := ⟨[], [.plain "a".toList (spec.settingLines ++ [[]])], false⟩
    Session document next ∧ next.LosesLine ∧
      next.WellFormed ∧ next.Reread (.parse next.render) := by
  intro spec document next
  have planned : (Request.update "a".toList spec).plan (fun _ => true) document = .ok next := by
    decide +kernel
  have session : Session document next := .plan .start planned
  exact ⟨session, ⟨rfl, by decide +kernel⟩, session.wellFormed_and_reread⟩

end SambaShares
