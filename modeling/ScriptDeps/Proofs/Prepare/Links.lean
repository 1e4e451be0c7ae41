import ScriptDeps.Proofs.Prepare.Requests

/-! # The link that a run makes

    A run makes no link but the marker of its script, whatever the answers to
    its requests are (`Tool.marker_of_mem_links`). -/

namespace ScriptDeps

/-! ## Section 1: Links -/

/-- Where a request makes a link, if it makes one. -/
def Request.link? : Request → Option Path
  | link _ path => some path
  | _ => none

/-- The paths at which a run asks for links, in order. -/
def Action.links {α : Type} (a : Action α) (h : Host) (m : Machine) : List Path :=
  (a.requests h m).filterMap Request.link?

variable {s : Store} {source : Script.Source} {r : Request} {path : Path}

theorem Request.link?_of_looks (h : r.looks = true) : r.link? = none := by
  cases r <;> first | rfl | cases h

theorem Request.link?_of_opens (h : r.opens = true) : r.link? = none := by
  cases r <;> first | rfl | cases h

theorem Request.link?_of_runs (h : r.runs = true) : r.link? = none := by
  cases r <;> first | rfl | cases h

/-- The link that preparing a script makes is its marker. -/
theorem Prepare.Asks.eq_markerPath (h : Asks s source r) (hlink : r.link? = some path) :
    ∃ content, path = s.markerPath (source.identity (sha256Hex content)) := by
  cases h with
  | looks hlooks =>
    rw [Request.link?_of_looks hlooks] at hlink
    cases hlink
  | linkMarker content target => exact ⟨content, (Option.some.inj hlink).symm⟩
  | makeEntry _ | writeManifest _ _ | writePlaceholder _ | writeRecord _ _ | capture _
  | makeMarkers | removeMarker _ => cases hlink

/-! ## Section 2: Running -/

/-- The link that a run makes is the marker of its script. -/
theorem Tool.marker_of_mem_links {e : Environment} {s : Settings} {p : CommandLine.Preparation}
    {script : Text} {args : List Text} {h : Host} {m m' : Machine}
    (hopen : (openScript e p script).run h m = (.ok source, m'))
    (hlink : path ∈ (run e s p script args).links h m) :
    ∃ content, path = (store e s).markerPath (source.identity (sha256Hex content)) := by
  obtain ⟨r, hr, hpath⟩ := List.mem_filterMap.1 hlink
  rcases Action.mem_requests_bind hr with hr | ⟨source', m'', hopen', hr⟩
  · rw [Request.link?_of_opens ((opens_openScript e p script).requests h m r hr)] at hpath
    cases hpath
  cases hopen'.symm.trans hopen
  rw [Action.requests_thenAlways] at hr
  rcases List.mem_append.1 hr with hr | hr
  · rcases Action.mem_requests_bind hr with hr | ⟨prepared, m'', _, hr⟩
    · exact ((asks_prepare _ _ _ source).requests h m' r hr).eq_markerPath hpath
    · rw [Request.link?_of_runs ((runs_execute _ prepared args).requests h m'' r hr)] at hpath
      cases hpath
  · obtain ⟨file, _, rfl⟩ := source.only_close.requests h _ r hr
    cases hpath

end ScriptDeps
