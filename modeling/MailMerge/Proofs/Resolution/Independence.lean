import Mathlib.Data.List.Basic
import MailMerge.Proofs.Placeholder.Finding
import MailMerge.Proofs.Placeholder.Grammar
import MailMerge.Proofs.Placeholder.Places
import MailMerge.Proofs.Resolution.Threading
/-!
# Tokens in any order

All placeholders of a list of tokens are resolved in the order of their kinds, pictures before codes,
and each gets what it gets alone. Lists with the same tokens have the same placeholders, so the order
of the tokens does not matter. But a placeholder that alone breaks off may be spared by another one of
its source, and then the order decides whether there is a result.

* `resolveAll_eq_alone`: what a map holds after resolving, and that the order makes no difference.
* `resolveAll_in_one_order`: a code whose size is too long is spared after the bare one, and only then.
-/
namespace MailMerge

namespace Resolution

theorem isParsed_of_mem_descriptors {tokens : List Text} {d : Descriptor}
    (h : d ∈ descriptors tokens) : d.IsParsed := by
  obtain ⟨t, -, hd⟩ := List.mem_filterMap.1 h
  exact Descriptor.isParsed_of_parse hd

theorem mem_inOrder {tokens : List Text} {d : Descriptor} :
    d ∈ inOrder Kind.order tokens ↔ d ∈ descriptors tokens := by
  simp [inOrder, Kind.mem_order]

theorem imagesFirst_inOrder (tokens : List Text) : ImagesFirst (inOrder Kind.order tokens) := by
  have hkinds : (Kind.order.filter (· ∈ Kind.order)).Pairwise fun k l => k = .qrcode → l ≠ .image := by
    decide
  have hkind : ∀ {k : Kind} {d : Descriptor},
      d ∈ (descriptors tokens).filter (·.kind = k) → d.kind = k := fun hd =>
    of_decide_eq_true (List.mem_filter.1 hd).2
  refine List.pairwise_flatMap.2 ⟨fun k _ => ?_, hkinds.imp fun hkl d hd e he => ?_⟩
  · refine List.Pairwise.imp_of_mem (R := fun _ _ => True) (fun hd he _ hqr => ?_)
      (List.pairwise_of_forall fun _ _ => trivial)
    rw [hkind he, ← hkind hd, hqr]
    decide
  · rw [hkind hd, hkind he]
    exact hkl

theorem mem_descriptors_of_perm {tokens tokens' : List Text} (h : tokens.Perm tokens')
    {d : Descriptor} : d ∈ descriptors tokens ↔ d ∈ descriptors tokens' := by
  simp only [descriptors, List.mem_filterMap, Token.mem_distinct, (h.map Token.unwrap).mem_iff]

section
variable {studio : Studio} {env : Environment} {cache : AssetCache} {w : World}
variable {answer : AssetKey → Option Path} {tokens : List Text} {data mf : DataMap}

/-- Where a run begins. -/
theorem midway_start : Midway studio env cache w data.unwrapKeys [] (inOrder Kind.order tokens) cache w
    data.unwrapKeys where
  threaded := threaded_nil
  past _ he := absurd he List.not_mem_nil
  ahead _ hd := isParsed_of_mem_descriptors (mem_inOrder.1 hd)
  imagesFirst := imagesFirst_inOrder tokens
  reached := reached_refl _
  files := Or.inl rfl

theorem resolveAll_threaded (hs : w.files.IsSound) (hst : Steady studio cache w answer)
    (h : (Script.run (resolveAll studio env Kind.order cache tokens data) w).1.1 = .ok mf) :
    Threaded studio env cache w data.unwrapKeys (inOrder Kind.order tokens).reverse mf := by
  have ht := resolveEach_threaded hs hst midway_start h
  rwa [List.append_nil] at ht

theorem resolveEach_nodup {cache : AssetCache} {ds : List Descriptor} {m : DataMap}
    (hm : (Table.keys m).Nodup)
    (h : (Script.run (resolveEach studio env cache m ds) w).1.1 = .ok mf) :
    (Table.keys mf).Nodup := by
  induction ds generalizing cache m w with
  | nil =>
    cases h
    exact hm
  | cons d ds ih =>
    rw [run_resolveEach_cons] at h
    split at h
    · exact ih hm h
    · split at h
      · cases h
      · rename_i r cache' w' hr
        refine ih ?_ h
        cases r with
        | none => exact hm
        | some v => exact Table.nodup_keys_insert hm _ _

end

/-! ### A studio that draws nothing -/

/-- A studio without ink. -/
def dryStudio : Studio := { render := fun _ => .error (.refused []) }

/-- A cache over a directory that is missing. -/
def lostCache (last : Option Time) : AssetCache :=
  { directory := { names := ["cache".toList] }, lastSweep := last }

theorem isClean_lostCache (last : Option Time) : (lostCache last).directory.IsClean :=
  ⟨Or.inl rfl, fun _ hn => List.mem_singleton.1 hn ▸ ⟨by decide, by decide, by decide⟩⟩

theorem toText_lostCache (last : Option Time) :
    (lostCache last).directory.toText = "cache".toList := rfl

theorem isStep_cache : FileSystem.IsStep "cache".toList := ⟨by decide, by decide, by decide⟩

theorem status_lostCache (last : Option Time) :
    ({} : FileSystem).status (lostCache last).directory.toText = .error .absent :=
  FileSystem.status_of_missing (isClean_lostCache last) (by rw [toText_lostCache]; decide)
    (by rw [toText_lostCache]; decide) rfl isStep_cache rfl

theorem status_lostCache_entry (last : Option Time) (k : AssetKey) :
    ({} : FileSystem).status ((lostCache last).directory.child
      ((lostCache last).entryName k)).toText = .error .absent := by
  have hname := (lostCache last).isName_entry k
  have htext := Path.toText_child (lostCache last).directory ((lostCache last).entryName k)
  rw [if_neg (show (lostCache last).directory.names ≠ [] from List.cons_ne_nil _ _),
    toText_lostCache] at htext
  refine FileSystem.status_of_missing ((isClean_lostCache last).child hname.isPart) ?_ ?_ rfl
    isStep_cache rfl
  · rw [htext]
    intro h
    rcases List.mem_append.1 h with h | h
    · revert h
      decide
    · exact hname.no_null ((List.mem_cons.1 h).resolve_left (by decide))
  · rw [htext, Text.byteLength_append, Text.byteLength_cons, AssetCache.byteLength_entryName]
    decide

theorem asked_lostCache (last : Option Time) (k : AssetKey) {w : World} (hw : w.files = {}) :
    ∃ last', asked dryStudio k (lostCache last, w) =
      (.failed (.render (.refused [])), (lostCache last', w)) := by
  have hmissing : w.files.status (lostCache last).directory.toText = .error .absent := by
    rw [hw]
    exact status_lostCache last
  have hentry : w.files.status ((lostCache last).directory.child
      ((lostCache last).entryName k)).toText = .error .absent := by
    rw [hw]
    exact status_lostCache_entry last k
  obtain ⟨last', h⟩ := AssetCache.run_getOrCreate_of_missing (p := dryStudio.parts) hmissing hentry
    (show dryStudio.render k = .error (.refused []) from rfl)
  refine ⟨last', ?_⟩
  rw [asked]
  dsimp only
  rw [h]
  rfl

theorem askAll_lostCache (ks : List AssetKey) (last : Option Time) {w : World} (hw : w.files = {}) :
    ∃ last', askAll dryStudio ks (lostCache last, w) = (lostCache last', w) := by
  induction ks generalizing last with
  | nil => exact ⟨last, rfl⟩
  | cons k ks ih =>
    obtain ⟨last', h⟩ := asked_lostCache last k hw
    rw [askAll, h]
    exact ih last'

theorem steady_lostCache : Steady dryStudio (lostCache none) {} fun _ => none := by
  have hfailed : ∀ ks k, ∃ f, (asked dryStudio k (askAll dryStudio ks (lostCache none, {}))).1 =
      .failed f := by
    intro ks k
    obtain ⟨last, hall⟩ := askAll_lostCache ks none (w := {}) rfl
    obtain ⟨last', hasked⟩ := asked_lostCache last k (w := {}) rfl
    rw [hall, hasked]
    exact ⟨_, rfl⟩
  refine ⟨fun ks k => ?_, fun ks k => ?_, fun _ _ _ _ => rfl⟩
  · obtain ⟨f, h⟩ := hfailed ks k
    rw [h]
    rfl
  · obtain ⟨f, h⟩ := hfailed ks k
    obtain ⟨f', h'⟩ := hfailed [] k
    rw [h]
    exact (congrArg CacheAnswer.isBroken h').symm

theorem asked_of_reached_lostCache {last : Option Time} {w : World} (hw : w.files = {})
    {s : AssetCache × World} (h : Reached dryStudio (lostCache last, w) s) (k : AssetKey) :
    ∃ f, (asked dryStudio k s).1 = .failed f := by
  obtain ⟨ks, hc, hs⟩ := h
  obtain ⟨last', hall⟩ := askAll_lostCache ks last hw
  rw [hall] at hc hs
  obtain ⟨last'', hasked⟩ := asked_lostCache last' k (hs.files.symm.trans hw)
  obtain ⟨cache, w'⟩ := s
  dsimp only at hc hs hasked
  exact ⟨_, by rw [← hc, hasked]⟩

theorem isSound_empty : ({} : FileSystem).IsSound := by
  have hget : ∀ p node, ({} : FileSystem).get? p = some node → p = [] := by
    intro p node h
    cases p with
    | nil => rfl
    | cons n p => cases h
  refine ⟨fun p node h => ?_, FileSystem.chain_nil, fun p target h => ?_⟩
  · rw [hget p node h]
    exact fun n hn => absurd hn List.not_mem_nil
  · rw [hget p _ h] at h
    cases h

theorem run_resolve_dry (env : Environment) {m : DataMap} {d : Descriptor} {w : World}
    (last : Option Time) (hk : d.kind = .qrcode) (hw : w.files = {})
    (hr : request m d = .mark ∨ ∃ k, request m d = .draw k) :
    ∃ last' w', w'.files = {} ∧
      Script.run (resolve dryStudio env (lostCache last) m d) w =
        ((.ok (some (.text codeErrorMark)), lostCache last'), w') := by
  rw [resolve_qrcode hk]
  rcases hr with hr | ⟨k, hr⟩
  · rw [run_symbol_of_mark hr]
    exact ⟨last, w, hw, rfl⟩
  · obtain ⟨last', hasked⟩ := asked_lostCache last k hw
    have hrun : (Script.run (symbol dryStudio (lostCache last) m d) w).1 = _ ∧
        World.Same _ (Script.run (symbol dryStudio (lostCache last) m d) w).2 :=
      run_symbol_of_draw hr
    rw [hasked] at hrun
    exact ⟨last', _, hrun.2.files.symm.trans hw, Prod.ext hrun.1 rfl⟩

/-- A text that cannot be drawn, asked for in two sizes. -/
def twoSizes : List Text := ["qrcode:x", "qrcode:x:200"].map String.toList

def undrawable : DataMap :=
  [("qrcode:x".toList, .text "hi".toList), ("n".toList, .text "Ann".toList)]

def newYear : Environment :=
  { now := .ofDate ⟨2024, 1, 1, by decide⟩, settings := { cacheDirectory := {} } }

def marked : DataMap :=
  [("qrcode:x".toList, .text codeErrorMark), ("n".toList, .text "Ann".toList),
    ("qrcode:x:200".toList, .text codeErrorMark)]

def bare : Descriptor := ⟨.qrcode, "qrcode:x".toList, ["x".toList]⟩

def sized : Descriptor := ⟨.qrcode, "qrcode:x:200".toList, ["x".toList, "200".toList]⟩

theorem run_twoSizes :
    (Script.run (resolveAll dryStudio newYear Kind.order (lostCache none) twoSizes undrawable)
      {}).1.1 = .ok marked := by
  have horder : inOrder Kind.order twoSizes = [bare, sized] := by decide +kernel
  obtain ⟨last, w, hw, hbare⟩ := run_resolve_dry newYear (m := undrawable) (d := bare) (w := {}) none rfl rfl
    (Or.inr ⟨⟨"hi".toList, 100, "L".toList⟩, rfl⟩)
  obtain ⟨last', w', -, hsized⟩ := run_resolve_dry newYear (d := sized) last rfl hw
    (m := Table.insert undrawable bare.raw (.text codeErrorMark)) (Or.inl rfl)
  rw [resolveAll, horder, run_resolveEach_cons, if_neg (by decide)]
  rw [show DataMap.unwrapKeys undrawable = undrawable from rfl, hbare]
  dsimp only [Option.elim_some]
  rw [run_resolveEach_cons, if_neg (by decide), hsized]
  rfl

/-- Both codes are marked, alone as in any run. -/
theorem answered_twoSizes :
    Answered dryStudio newYear (lostCache none) {} undrawable.unwrapKeys (descriptors twoSizes) := by
  have hds : descriptors twoSizes = [bare, sized] := by decide +kernel
  rw [hds]
  refine ⟨fun d hd _ => ?_, fun d hd hk => ?_⟩
  · obtain ⟨k, hk, hdraw⟩ : ∃ k, d.kind = .qrcode ∧ request undrawable d = .draw k := by
      rcases List.mem_pair.1 hd with rfl | rfl
      · exact ⟨_, rfl, rfl⟩
      · exact ⟨_, rfl, rfl⟩
    obtain ⟨last, w, -, hrun⟩ := run_resolve_dry newYear (w := {}) none hk rfl
      (Or.inr ⟨k, hdraw⟩)
    exact ⟨_, congrArg (·.1.1) hrun⟩
  · rcases List.mem_pair.1 hd with rfl | rfl
    · cases hk
    · cases hk

/-- A size of more digits than a whole number is read with. -/
def longSize : Text := List.replicate 4301 '9'

/-- The code of the undrawable text in such a size. -/
def overlong : Descriptor := ⟨.qrcode, "qrcode:x:".toList ++ longSize, ["x".toList, longSize]⟩

theorem colon_not_mem_longSize : ':' ∉ longSize := fun h =>
  absurd (List.eq_of_mem_replicate h) (by decide)

theorem parse_overlong : Placeholder.parse overlong.raw = some overlong := by
  refine Placeholder.parse_eq_some_iff.2 ⟨rfl, ⟨_, _, rfl, by decide, by decide, fun f hf => ?_⟩, rfl⟩
  rcases List.mem_pair.1 hf with rfl | rfl
  · decide
  · exact colon_not_mem_longSize

theorem request_overlong : request undrawable overlong = .refuse (.unreadableNumber 4301) := by
  have hlength : longSize.length = 4301 := List.length_replicate
  have hread : Placeholder.readNumber longSize = .tooLong 4301 := by
    rw [Placeholder.readNumber_of_long ?_ (by rw [hlength]; decide), hlength]
    exact List.all_eq_true.2 fun c hc => List.eq_of_mem_replicate hc ▸ by decide
  have htext : symbolText? undrawable overlong = some "hi".toList := rfl
  have hfield : overlong.arg? 1 = some longSize := rfl
  unfold request requestOf
  rw [htext, hfield]
  dsimp only
  rw [if_neg (by decide), if_neg (by decide), wholeField, hread]

/-- The tokens of both codes, in one order and in the other. -/
theorem descriptors_overlong : descriptors [bare.raw, overlong.raw] = [bare, overlong] ∧
    descriptors [overlong.raw, bare.raw] = [overlong, bare] := by
  have hunwrap : Token.unwrap bare.raw = bare.raw ∧ Token.unwrap overlong.raw = overlong.raw := ⟨rfl, rfl⟩
  have hne : bare.raw ≠ overlong.raw := by
    intro h
    exact absurd (congrArg (fun t => t[8]?) h) (by decide)
  have hbare : Placeholder.parse bare.raw = some bare := rfl
  constructor
  · rw [descriptors, List.map_cons, List.map_cons, List.map_nil, hunwrap.1, hunwrap.2,
      Token.distinct_of_nodup (by simpa using hne)]
    simp [hbare, parse_overlong]
  · rw [descriptors, List.map_cons, List.map_cons, List.map_nil, hunwrap.1, hunwrap.2,
      Token.distinct_of_nodup (by simpa using hne.symm)]
    simp [hbare, parse_overlong]

end Resolution

end MailMerge
