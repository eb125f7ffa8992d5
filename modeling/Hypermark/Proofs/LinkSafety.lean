import Hypermark.Proofs.Exposure
import Hypermark.Proofs.InlineMarkup

/-!
# Link safety

Links and images have two ways into a document.  The inline renderer judges every destination before
it writes one; a raw table is written as it stands.  So what is true of all documents is that inline
markup holds safe destinations, and the rejected ones leave no trace exactly when no raw table that
is reached holds one.

* `rejected_leave_no_trace_iff`: when no rejected destination has a part in the document.
-/

namespace Hypermark

/-! ## Documents -/

/-- All links and images that are written as Markdown have safe destinations, and the rejected ones
have no part in the document exactly when every raw table that is reached holds safe ones only. -/
theorem rejected_leave_no_trace_iff (opts : Options) {ns : List Node} {t : Text}
    (h : (convertTree opts ns).outcome = .ok t) :
    (∀ scope run, Inline.AllWritten (Inline.buffer scope run)) ∧
      ((∀ f, KeepsVerdict f → (convertTree opts (Node.redirectAll f ns)).outcome = .ok t) ↔
        ∀ p ∈ Render.reachedAmong [Place.documentTag] Render.keepAll ns, p.RawSafe) := by
  refine ⟨Inline.written_buffer, fun htrace p hp => ?_, fun hraw f hf => ?_⟩
  · by_contra hunsafe
    obtain ⟨f, hf, hne⟩ := exists_redirect_ne opts hp hunsafe t
    exact hne (htrace f hf)
  · rw [convertTree_redirect hf opts hraw, h]

/-- A paragraph with a script for a destination. -/
theorem script_in_paragraph_leaves_no_trace :
    (convertTree Options.standard [.element "p".toList [] [.text "see ".toList,
      .element "a".toList [("href".toList, some "javascript:x".toList)] [.text "l".toList]]]).outcome
        = .ok "see".toList ∧
    ∀ f, KeepsVerdict f → (convertTree Options.standard (Node.redirectAll f [.element "p".toList []
      [.text "see ".toList, .element "a".toList [("href".toList, some "javascript:x".toList)]
        [.text "l".toList]]])).outcome = .ok "see".toList := by
  refine ⟨rfl, ((rejected_leave_no_trace_iff Options.standard rfl).2).mpr fun p hp => ?_⟩
  cases List.mem_singleton.mp hp
  intro htable
  cases htable

/-- The same destination beside a table in a cell of another one. -/
theorem script_in_raw_table_shows :
    let nested : List Node := [.element "table".toList [] [.element "tr".toList []
      [.element "td".toList [] [.element "a".toList [("href".toList, some "javascript:x".toList)]
        [.text "l".toList], .element "table".toList [] []]]]]
    (convertTree Options.standard nested).outcome =
      .ok "<table><tr><td><a href=\"javascript:x\">l</a><table></table></td></tr></table>".toList ∧
    Link.isSafe "javascript:x".toList = false ∧
    ¬∀ p ∈ Render.reachedAmong [Place.documentTag] Render.keepAll nested, p.RawSafe := by
  refine ⟨rfl, rfl, fun hraw => ?_⟩
  have hbelow := hraw _ (List.mem_cons_self ..) rfl
  have hlink := hbelow ⟨[0, 0, 0], ["td".toList, "tr".toList, "table".toList, Place.documentTag],
    .element "a".toList [("href".toList, some "javascript:x".toList)] [.text "l".toList]⟩
    (.tail _ (.tail _ (.head _)))
  have hsafe := hlink ("href".toList, some "javascript:x".toList) (.head _) rfl
  cases hsafe

end Hypermark
