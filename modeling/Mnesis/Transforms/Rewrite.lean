import Mnesis.Kernel.Unwind
import Mnesis.Store.StreamKey
import Mnesis.Transforms.LoadWith
import Mnesis.Transforms.Upcast

/-!
# Rewritten streams

The events of a stream may be replaced by what the generated upcast makes of them.  An
aggregate is then loaded from the new stream without the upcast, or still with it, as it
was loaded from the old one through the upcast.
-/

namespace Mnesis.Transforms

open Foundation Kernel Store

section

variable {E : Type} {definitions : List (Transform E)} {expansion : Expansion E}
variable {upcast : EventMorsel → Except (TransformError E) EventMorsel}

/-- The generated function returns these results. -/
def Expansion.Computes (expansion : Expansion E)
    (upcast : EventMorsel → Except (TransformError E) EventMorsel) : Prop :=
  ∀ morsel, Returns expansion.upcastStep morsel (upcast morsel)

/-- The upcast returns, and an event that it has returned it leaves as it is. -/
theorem Expansion.Valid.settles (valid : expansion.Valid definitions) (morsel : EventMorsel) :
    ∃ result, Returns expansion.upcastStep morsel result ∧
      ∀ current, result = .ok current → Returns expansion.upcastStep current (.ok current) := by
  by_cases isDeclared : morsel.node ∈ declared definitions
  · obtain ⟨edges, last, _, follows, _, stays⟩ := valid.upcasts.followed isDeclared
    refine ⟨_, follows, ?_⟩
    cases runAll edges morsel.payload with
    | error error => exact fun _ failed => nomatch failed
    | ok payload =>
      rintro _ ⟨⟩
      exact stays payload
  · by_cases isNamed : ∃ node ∈ declared definitions, node.1 = morsel.eventType
    · obtain ⟨node, isNode, sameName⟩ := isNamed
      exact ⟨_, valid.upcasts.refused isNode sameName isDeclared, fun _ failed => nomatch failed⟩
    · have unknown : ∀ node ∈ declared definitions, node.1 ≠ morsel.eventType :=
        fun node isNode sameName => isNamed ⟨node, isNode, sameName⟩
      have same := valid.upcasts.unknown unknown
      refine ⟨_, same, ?_⟩
      rintro _ ⟨⟩
      exact same

theorem Expansion.Valid.upcast_again (valid : expansion.Valid definitions)
    (computes : expansion.Computes upcast) (upcasted : upcast morsel = .ok current) :
    upcast current = .ok current := by
  obtain ⟨result, returns, settled⟩ := valid.settles morsel
  exact (computes current).unique
    (settled current ((returns.unique (computes morsel)).trans upcasted))

end

theorem IsView.borrowed (view : IsView env morsel new.toPending) : .borrowed new = morsel := by
  obtain ⟨_, _, _⟩ := morsel
  have sameText := (isView_borrowed new).eventType.symm.trans view.eventType
  have sameType := congrArg StreamKey.fmt sameText
  rw [fmt_utf8Bytes, fmt_utf8Bytes] at sameType
  exact congr (congr (congrArg _ sameType) view.schemaVersion) view.payload

theorem Rewrites.again {E : Type} {definitions : List (Transform E)} {expansion : Expansion E}
    {upcast : EventMorsel → Except (TransformError E) EventMorsel}
    (rewrites : Rewrites upcast env new) (valid : expansion.Valid definitions)
    (computes : expansion.Computes upcast) : Rewrites upcast new new := by
  obtain ⟨morsel, upcasted, built⟩ := rewrites
  have same := (isView_of_ok built).borrowed
  refine ⟨morsel, ?_, ?_⟩
  · rw [same]
    exact valid.upcast_again computes upcasted
  · rw [← same]
    exact if_pos rfl

/-- The old stream through the upcast, the new one through it, and the new one as it is load
alike. -/
def LoadsAlike {A : Aggregate} {EncodeError DecodeError E : Type} (AdapterError : Type)
    (codec : EventCodec A.Event EncodeError DecodeError) (definitions : List (Transform E)) :
    Prop :=
  ∀ expansion, expand definitions = .ok expansion →
    ∃ upcast, expansion.Computes upcast ∧
      ∀ rows rewritten, List.Forall₂ (Rewrites upcast) rows rewritten →
        ∀ (failure : Option AdapterError), ∀ stream ∈ [rows, rewritten],
          (loadWith codec (fun _ => .ok ()) upcast stream failure :
            _ × LoadResult AdapterError EncodeError DecodeError _ Unit _).2 =
            (Repository.replayAnswer codec AggregateRoot.new
              ⟨rewritten.map PersistedEnvelope.toPending, failure⟩).mapError .store

/-- A rewritten stream is loaded as the old one was through the upcast. -/
theorem rewritten_streams_load_alike {A : Aggregate} {EncodeError DecodeError E : Type}
    (AdapterError : Type) (codec : EventCodec A.Event EncodeError DecodeError)
    (definitions : List (Transform E)) : LoadsAlike AdapterError codec definitions := by
  intro expansion expanded
  have valid := Expansion.valid_of_expand expanded
  obtain ⟨upcast, settles⟩ := Classical.skolem.mp valid.settles
  have computes : expansion.Computes upcast := fun morsel => (settles morsel).1
  refine ⟨upcast, computes, ?_⟩
  intro rows rewritten rewrites failure stream isStream
  have again : List.Forall₂ (Rewrites upcast) rewritten rewritten := by
    clear isStream
    induction rewrites with
    | nil => exact .nil
    | cons first _ ih => exact .cons (Rewrites.again first valid computes) ih
  rcases List.mem_pair.mp isStream with rfl | rfl
  · exact loadWith_rewritten rewrites failure
  · exact loadWith_rewritten again failure

/-- An event as it was stored under the first schema. -/
def openedEvent : PersistedEnvelope where
  version := .initial
  value := utf8Bytes "opened"
  schemaVersion := .initial
  eventTypeRange := ⟨0, 6⟩
  payloadRange := ⟨6, 6⟩
  metadataRange := none
  checked := by decide

/-- A codec that knows the name of the latest schema only. -/
def createdCodec : EventCodec Unwind.counter.Event Empty Unit where
  name _ := .fromStaticStr "created" (by decide)
  encode _ := .ok []
  decode stored := if stored.eventType.asBytes = utf8Bytes "created" then .ok () else .error ()

/-- The stored event and the one that replaces it are both counted. -/
theorem opened_event_loads_alike :
    ∃ upcast new, Rewrites upcast openedEvent new ∧
      ∀ stream ∈ [[openedEvent], [new]],
        (loadWith createdCodec (fun _ => .ok ()) upcast stream none :
          _ × LoadResult Empty Empty Unit (TransformError Unit) Unit _).2 =
          .ok ⟨some (1 : Nat), some .initial, 1⟩ := by
  obtain ⟨expansion, expanded⟩ : ∃ expansion, expand accountSteps = .ok expansion := ⟨_, rfl⟩
  obtain ⟨upcast, computes, alike⟩ :=
    rewritten_streams_load_alike Empty createdCodec accountSteps expansion expanded
  have upcasted : upcast (.borrowed openedEvent) = .ok ⟨"created", ⟨3, by decide⟩, [1, 2]⟩ := by
    refine (computes _).unique ⟨3, ?_⟩
    obtain ⟨_, rfl⟩ := expand_eq_ok.mp expanded
    rfl
  obtain ⟨new, isNew⟩ : ∃ new, forTransformedDecode openedEvent
      ⟨"created", ⟨3, by decide⟩, [1, 2]⟩ = .ok new := ⟨_, rfl⟩
  have rewrites : Rewrites upcast openedEvent new := ⟨_, upcasted, isNew⟩
  refine ⟨upcast, new, rewrites, fun stream isStream => ?_⟩
  rw [alike [openedEvent] [new] (.cons rewrites .nil) none stream isStream]
  cases isNew
  rfl

end Mnesis.Transforms
