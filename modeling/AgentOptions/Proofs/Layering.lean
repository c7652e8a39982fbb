import AgentOptions.Proofs.Precedence

/-! # Layers of sources

Sources that stand above others override them: what is resolved from both is, option by option,
what is resolved from the upper ones where they supply a text, be it a value or not, and what is
resolved from the lower ones elsewhere (`Snapshot.override`, `resolve_append`).  A source without a
text that is not blank can stand anywhere (`result_insert_silent`).

Main statement: `layers_override`. -/

namespace AgentOptions

namespace Setting

/-- The upper setting, or the lower one where the upper is a default. -/
def override (upper lower : Setting) : Setting :=
  match upper with
  | defaulted _ => lower
  | supplied value origin => supplied value origin
  | rejected value rejection => rejected value rejection

/-- A source supplied a text, be it a value or not. -/
def Touched (s : Setting) : Prop := s.origin?.isSome ∨ s.rejection?.isSome

theorem override_of_touched {upper : Setting} (lower : Setting) (h : upper.Touched) :
    upper.override lower = upper := by
  cases upper with
  | defaulted value => simp [Touched, origin?, rejection?] at h
  | supplied value origin => rfl
  | rejected value rejection => rfl

theorem override_of_not_touched {upper : Setting} (lower : Setting) (h : ¬ upper.Touched) :
    upper.override lower = lower := by
  cases upper with
  | defaulted value => rfl
  | supplied value origin => simp [Touched, origin?] at h
  | rejected value rejection => simp [Touched, rejection?] at h

theorem override_assoc (s t u : Setting) :
    (s.override t).override u = s.override (t.override u) := by
  cases s with
  | defaulted value => rfl
  | supplied value origin => rfl
  | rejected value rejection => rfl

/-- What decides in the upper sources, or else in the lower ones, gives the one setting over the
other. -/
theorem ofChoice_or (spec : OptionSpec) (upper lower : Option (String × String)) :
    ofChoice spec (upper.or lower) = (ofChoice spec upper).override (ofChoice spec lower) := by
  cases upper with
  | none => rfl
  | some choice =>
      obtain ⟨source, raw⟩ := choice
      simp only [Option.some_or, ofChoice]
      cases spec.read raw with
      | ok value => rfl
      | error error => rfl

end Setting

namespace Snapshot

/-- The upper snapshot, and the lower one where the upper has defaults. -/
def override (upper lower : Snapshot) : Snapshot where
  setting n := (upper.setting n).override (lower.setting n)

/-- A source supplied a text for the option, be it a value or not. -/
def Touched (s : Snapshot) (n : OptionName) : Prop :=
  (s.origin? n).isSome ∨ (s.rejection? n).isSome

/-- Both snapshots have the same value, origin and refused text for an option. -/
def AgreesOn (s t : Snapshot) (n : OptionName) : Prop :=
  s.value n = t.value n ∧ s.origin? n = t.origin? n ∧ s.rejection? n = t.rejection? n

theorem agreesOn_of_setting_eq {s t : Snapshot} {n : OptionName}
    (h : s.setting n = t.setting n) : s.AgreesOn t n :=
  ⟨congrArg Setting.value h, congrArg Setting.origin? h, congrArg Setting.rejection? h⟩

theorem override_agreesOn_upper {upper : Snapshot} (lower : Snapshot) {n : OptionName}
    (h : upper.Touched n) : (upper.override lower).AgreesOn upper n :=
  agreesOn_of_setting_eq (Setting.override_of_touched _ h)

theorem override_agreesOn_lower {upper : Snapshot} (lower : Snapshot) {n : OptionName}
    (h : ¬ upper.Touched n) : (upper.override lower).AgreesOn lower n :=
  agreesOn_of_setting_eq (Setting.override_of_not_touched _ h)

theorem override_assoc (s t u : Snapshot) :
    (s.override t).override u = s.override (t.override u) :=
  congrArg Snapshot.mk (funext fun _ => Setting.override_assoc _ _ _)

theorem mem_rejections_iff {s : Snapshot} {n : OptionName} {r : Rejection} :
    (n, r) ∈ s.rejections ↔ s.rejection? n = some r := by
  simp [rejections, OptionName.mem_all]

theorem mem_rejections_override_iff {upper lower : Snapshot} {n : OptionName} {r : Rejection} :
    (n, r) ∈ (upper.override lower).rejections ↔
      (n, r) ∈ upper.rejections ∨ ¬ upper.Touched n ∧ (n, r) ∈ lower.rejections := by
  simp only [mem_rejections_iff]
  by_cases h : upper.Touched n
  · obtain ⟨-, -, hr⟩ := override_agreesOn_upper lower h
    simp [hr, h]
  · obtain ⟨-, -, hr⟩ := override_agreesOn_lower lower h
    have hnone : upper.rejection? n = none := by
      rw [← Option.not_isSome_iff_eq_none]
      exact fun hsome => h (.inr hsome)
    simp [hr, h, hnone]

end Snapshot

/-! ### Loading one list after the other -/

theorem result_resolve (registry : Registry) (sources : List Source) :
    (registry.resolve sources).result = (loadAll sources).1.map registry.settle := by
  unfold Registry.resolve
  cases h : (loadAll sources).1 with
  | error e => simp [h, Except.map]
  | ok layers => simp [h, Except.map]

theorem loadAll_append (upper lower : List Source) :
    (loadAll (upper ++ lower)).1 =
      (loadAll upper).1.bind fun above => (loadAll lower).1.map (above ++ ·) := by
  induction upper with
  | nil =>
      cases h : (loadAll lower).1 with
      | error e => simp [loadAll, h, Except.bind, Except.map]
      | ok below => simp [loadAll, h, Except.bind, Except.map]
  | cons source rest ih =>
      rw [List.cons_append, loadAll, loadAll]
      cases source.load OptionName.all with
      | error cause => rfl
      | ok loaded =>
          simp only [ih]
          cases (loadAll rest).1 with
          | error e => rfl
          | ok others => cases (loadAll lower).1 with
            | error e => rfl
            | ok below => rfl

theorem supplied?_append (upper lower : List Layer) (n : OptionName) :
    supplied? (upper ++ lower) n = (supplied? upper n).or (supplied? lower n) :=
  List.findSome?_append

theorem settle_append (registry : Registry) (upper lower : List Layer) :
    registry.settle (upper ++ lower) =
      (registry.settle upper).override (registry.settle lower) := by
  refine congrArg Snapshot.mk (funext fun n => ?_)
  rw [supplied?_append]
  exact Setting.ofChoice_or _ _ _

theorem resolve_append {registry : Registry} {upper lower : List Source} {above below : Snapshot}
    (ha : (registry.resolve upper).result = .ok above)
    (hb : (registry.resolve lower).result = .ok below) :
    (registry.resolve (upper ++ lower)).result = .ok (above.override below) := by
  rw [result_resolve] at ha hb ⊢
  rw [loadAll_append]
  cases hu : (loadAll upper).1 with
  | error e => simp [hu, Except.map] at ha
  | ok layersAbove => cases hl : (loadAll lower).1 with
    | error e => simp [hl, Except.map] at hb
    | ok layersBelow =>
        rw [hu] at ha
        rw [hl] at hb
        cases ha
        cases hb
        exact congrArg Except.ok (settle_append registry layersAbove layersBelow)

/-! ### Silent sources -/

/-- The source loads, and whatever it has for an option is blank. -/
def Source.Silent (s : Source) : Prop :=
  ∃ loaded, s.load OptionName.all = .ok loaded ∧
    ∀ n raw, loaded.values n = some raw → Text.trim raw = ""

theorem loadAll_of_silent {s : Source} (h : s.Silent) :
    ∃ layer, (loadAll [s]).1 = .ok [layer] ∧ ∀ n, layer.text? n = none := by
  obtain ⟨loaded, hl, hblank⟩ := h
  refine ⟨⟨s.name, loaded.values⟩, by simp [loadAll, hl, Except.map], fun n => ?_⟩
  unfold Layer.text?
  cases hv : loaded.values n with
  | none => simp [hv]
  | some raw => simp only [hv, Option.map_some, hblank n raw hv, Option.bind_some, if_true]

/-- A silent source changes nothing wherever it stands, also where a resolution fails. -/
theorem result_insert_silent (registry : Registry) (upper lower : List Source) {s : Source}
    (h : s.Silent) :
    (registry.resolve (upper ++ s :: lower)).result =
      (registry.resolve (upper ++ lower)).result := by
  obtain ⟨layer, hload, htext⟩ := loadAll_of_silent h
  have hsettle : ∀ above below : List Layer,
      registry.settle (above ++ ([layer] ++ below)) = registry.settle (above ++ below) := by
    intro above below
    refine congrArg Snapshot.mk (funext fun n => ?_)
    have hbelow : supplied? ([layer] ++ below) n = supplied? below n := by
      rw [List.singleton_append, supplied?_cons, htext n]
    rw [supplied?_append, hbelow, supplied?_append]
  rw [result_resolve, result_resolve, ← List.singleton_append, loadAll_append, loadAll_append,
    loadAll_append, hload]
  cases (loadAll upper).1 with
  | error e => rfl
  | ok above => cases (loadAll lower).1 with
    | error e => rfl
    | ok below => exact congrArg Except.ok (hsettle above below)

/-! ### Layering -/

/-- **Layering is overriding.**  What is resolved from two lists of sources, one above the other,
agrees with the upper one on every option that a source there supplied or spoiled, and with the
lower one on every other; the refused texts are, in the order of the options, those of the two
that belong to these options; and a source without any text that is not blank changes nothing,
wherever it is inserted. -/
theorem layers_override (registry : Registry) (upper lower : List Source)
    (hu : ∀ s ∈ upper, ∃ loaded, s.load OptionName.all = .ok loaded)
    (hl : ∀ s ∈ lower, ∃ loaded, s.load OptionName.all = .ok loaded) :
    ∃ above below both,
      (registry.resolve upper).result = .ok above ∧
      (registry.resolve lower).result = .ok below ∧
      (registry.resolve (upper ++ lower)).result = .ok both ∧
      (∀ n, (above.Touched n → both.AgreesOn above n) ∧
        (¬ above.Touched n → both.AgreesOn below n)) ∧
      (∀ n r, (n, r) ∈ both.rejections ↔
        (n, r) ∈ above.rejections ∨ ¬ above.Touched n ∧ (n, r) ∈ below.rejections) ∧
      (both.rejections.Pairwise fun p q =>
        OptionName.all.idxOf p.1 < OptionName.all.idxOf q.1) ∧
      (both = above.override below ∧
        ∀ lowest, both.override lowest = above.override (below.override lowest)) ∧
      ∀ s : Source, s.Silent →
        (registry.resolve (upper ++ s :: lower)).result = .ok both := by
  obtain ⟨layersAbove, hla⟩ := exists_loadsAs hu
  obtain ⟨layersBelow, hlb⟩ := exists_loadsAs hl
  have ha : (registry.resolve upper).result = .ok (registry.settle layersAbove) :=
    resolve_eq_ok_iff.mpr ⟨layersAbove, hla, rfl⟩
  have hb : (registry.resolve lower).result = .ok (registry.settle layersBelow) :=
    resolve_eq_ok_iff.mpr ⟨layersBelow, hlb, rfl⟩
  have hboth := resolve_append ha hb
  refine ⟨_, _, _, ha, hb, hboth, fun n => ⟨fun h => ?_, fun h => ?_⟩,
    fun n r => Snapshot.mem_rejections_override_iff, pairwise_entries _ OptionName.nodup_all,
    ⟨rfl, fun lowest => Snapshot.override_assoc _ _ lowest⟩, fun s hs => ?_⟩
  · exact Snapshot.override_agreesOn_upper _ h
  · exact Snapshot.override_agreesOn_lower _ h
  · rw [result_insert_silent registry upper lower hs]
    exact hboth

/-- A text that is no number, and a blank one. -/
def spoiledAndBlank : List Source :=
  [.overrides ⟨"first", [(.transactionSampleRate, "lots"), (.serviceName, "  ")]⟩]

/-- Values for both of these options. -/
def sampledCheckout : List Source :=
  [.environment [("ELASTIC_OTEL_TRANSACTION_SAMPLE_RATE", .text "0.25"),
    ("ELASTIC_OTEL_SERVICE_NAME", .text " checkout ")]]

/-- The text that is no number hides the number below it, the blank one does not hide the name. -/
theorem layers_override_spoiled_and_blank :
    (∀ s ∈ spoiledAndBlank, ∃ loaded, s.load OptionName.all = .ok loaded) ∧
      (∀ s ∈ sampledCheckout, ∃ loaded, s.load OptionName.all = .ok loaded) ∧
      ∃ above below both,
        (Registry.builtin.resolve spoiledAndBlank).result = .ok above ∧
        (Registry.builtin.resolve sampledCheckout).result = .ok below ∧
        (Registry.builtin.resolve (spoiledAndBlank ++ sampledCheckout)).result = .ok both ∧
        (∀ n, (above.Touched n → both.AgreesOn above n) ∧
          (¬ above.Touched n → both.AgreesOn below n)) ∧
        (∀ n r, (n, r) ∈ both.rejections ↔
          (n, r) ∈ above.rejections ∨ ¬ above.Touched n ∧ (n, r) ∈ below.rejections) ∧
        (both.rejections.Pairwise fun p q =>
          OptionName.all.idxOf p.1 < OptionName.all.idxOf q.1) ∧
        (both = above.override below ∧
          ∀ lowest, both.override lowest = above.override (below.override lowest)) ∧
        (∀ s : Source, s.Silent →
          (Registry.builtin.resolve (spoiledAndBlank ++ s :: sampledCheckout)).result =
            .ok both) ∧
        below.origins = [(.serviceName, "env"), (.transactionSampleRate, "env")] ∧
        both.origins = [(.serviceName, "env")] ∧
        both.value .serviceName = .string "checkout" ∧
        both.rejections =
          [(.transactionSampleRate, ⟨"first", "lots", .notFinite "lots"⟩)] := by
  have hu : ∀ s ∈ spoiledAndBlank, ∃ loaded, s.load OptionName.all = .ok loaded := by
    simp [spoiledAndBlank, Source.overrides]
  have hl : ∀ s ∈ sampledCheckout, ∃ loaded, s.load OptionName.all = .ok loaded := by
    simp [sampledCheckout, Source.environment]
  obtain ⟨above, below, both, ha, hb, hboth, hagree, hmem, horder, hlaws, hsilent⟩ :=
    layers_override Registry.builtin spoiledAndBlank sampledCheckout hu hl
  refine ⟨hu, hl, above, below, both, ha, hb, hboth, hagree, hmem, horder, hlaws, hsilent, ?_⟩
  cases hb
  cases hboth
  decide +kernel

end AgentOptions
