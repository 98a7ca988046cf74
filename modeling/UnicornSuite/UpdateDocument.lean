import UnicornSuite.NewsDocument
import UnicornSuite.UpdateManifest

/-! Manifest documents: the text of a JSON object with any values in it, and the members it has at any
depth, each with the text that stands behind its value. -/

namespace UnicornSuite.Manifest

open CText News

mutual

inductive Json where
  | str (s : JsonString)
  | num (n : Number)
  | true
  | false
  | null
  | arr (pad : Ws) (elems : Elems)
  | obj (pad : Ws) (members : Members)

inductive Elems where
  | nil
  | cons (lead : Ws) (value : Json) (trail : Ws) (more : Elems)

inductive Members where
  | nil
  | cons (lead : Ws) (key : JsonString) (beforeColon afterColon : Ws) (value : Json) (trail : Ws)
      (more : Members)

end

mutual

def Json.text : Json → Bytes
  | .str s => (Value.str s).text
  | .num n => n.text
  | .true => ascii "true"
  | .false => ascii "false"
  | .null => ascii "null"
  | .arr pad elems => openBracket :: (pad.bytes ++ elems.text [] ++ [closeBracket])
  | .obj pad members => openBrace :: (pad.bytes ++ members.text [] ++ [closeBrace])

/-- The elements with commas between them; `sep` stands before the first. -/
def Elems.text : Elems → Bytes → Bytes
  | .nil, _ => []
  | .cons lead value trail more, sep =>
      sep ++ lead.bytes ++ value.text ++ trail.bytes ++ more.text [comma]

def Members.text : Members → Bytes → Bytes
  | .nil, _ => []
  | .cons lead key beforeColon afterColon value trail more, sep =>
      sep ++ lead.bytes ++ (Value.str key).text ++ beforeColon.bytes ++ colon :: afterColon.bytes ++
        value.text ++ trail.bytes ++ more.text [comma]

end

/-- A member, and what stands behind its value in the document. -/
structure Entry where
  key : JsonString
  value : Json
  behind : Bytes

/-- The document from the value on. -/
def Entry.place (e : Entry) : Bytes := e.value.text ++ e.behind

/-- The members of an object itself; `rest` stands behind them. -/
def Members.own : Members → Bytes → List Entry
  | .nil, _ => []
  | .cons _ key _ _ value trail more, rest =>
      ⟨key, value, trail.bytes ++ (more.text [comma] ++ rest)⟩ :: more.own rest

mutual

/-- The members in a value, at any depth and in the order of the text. -/
def Json.entries : Json → Bytes → List Entry
  | .arr _ elems, rest => elems.entries (closeBracket :: rest)
  | .obj _ members, rest => members.entries (closeBrace :: rest)
  | _, _ => []

def Elems.entries : Elems → Bytes → List Entry
  | .nil, _ => []
  | .cons _ value trail more, rest =>
      value.entries (trail.bytes ++ (more.text [comma] ++ rest)) ++ more.entries rest

def Members.entries : Members → Bytes → List Entry
  | .nil, _ => []
  | .cons _ key _ _ value trail more, rest =>
      let behind := trail.bytes ++ (more.text [comma] ++ rest)
      ⟨key, value, behind⟩ :: (value.entries behind ++ more.entries rest)

end

/-- A text that is one JSON object. -/
structure Document where
  lead : Ws := Ws.empty
  pad : Ws := Ws.empty
  members : Members
  trail : Ws := Ws.empty

def Document.text (d : Document) : Bytes :=
  d.lead.bytes ++ (Json.obj d.pad d.members).text ++ d.trail.bytes

/-- The members at the top level. -/
def Document.own (d : Document) : List Entry := d.members.own (closeBrace :: d.trail.bytes)

/-- The members at any depth. -/
def Document.entries (d : Document) : List Entry := d.members.entries (closeBrace :: d.trail.bytes)

/-! ### Places -/

section Places

mutual

/-- Every member in a value stands behind its first byte, and before what follows it. -/
theorem Json.place_entries : ∀ (v : Json) (rest : Bytes), ∀ e ∈ v.entries rest,
    e.place.length < (v.text ++ rest).length ∧ rest.length ≤ e.place.length
  | .arr pad elems, rest, e, he => by
      have hplace := Elems.place_entries elems [] (closeBracket :: rest) e he
      simp only [Json.text, List.length_append, List.length_cons, List.length_nil] at hplace ⊢
      omega
  | .obj pad members, rest, e, he => by
      have hplace := Members.place_entries members [] (closeBrace :: rest) e he
      simp only [Json.text, List.length_append, List.length_cons, List.length_nil] at hplace ⊢
      omega
  | .str _, _, _, he => nomatch he
  | .num _, _, _, he => nomatch he
  | .true, _, _, he => nomatch he
  | .false, _, _, he => nomatch he
  | .null, _, _, he => nomatch he

theorem Elems.place_entries : ∀ (es : Elems) (sep rest : Bytes), ∀ e ∈ es.entries rest,
    e.place.length < (es.text sep ++ rest).length ∧ rest.length ≤ e.place.length
  | .nil, _, _, _, he => nomatch he
  | .cons lead value trail more, sep, rest, e, he => by
      simp only [Elems.text, List.length_append]
      rcases List.mem_append.mp he with he | he
      · have hplace := Json.place_entries value _ e he
        simp only [List.length_append] at hplace
        omega
      · have hplace := Elems.place_entries more [comma] rest e he
        simp only [List.length_append] at hplace
        omega

theorem Members.place_entries : ∀ (ms : Members) (sep rest : Bytes), ∀ e ∈ ms.entries rest,
    e.place.length < (ms.text sep ++ rest).length ∧ rest.length ≤ e.place.length
  | .nil, _, _, _, he => nomatch he
  | .cons lead key beforeColon afterColon value trail more, sep, rest, e, he => by
      simp only [Members.text, List.length_append, List.length_cons]
      rcases List.mem_cons.mp he with rfl | he
      · simp only [Entry.place, List.length_append]
        omega
      · rcases List.mem_append.mp he with he | he
        · have hplace := Json.place_entries value _ e he
          simp only [List.length_append] at hplace
          omega
        · have hplace := Members.place_entries more [comma] rest e he
          simp only [List.length_append] at hplace
          omega

end

/-- One place is behind the other. -/
def Entry.Before (e e' : Entry) : Prop := e'.place.length < e.place.length

mutual

/-- The members of a value are listed in the order of their places. -/
theorem Json.sorted_entries : ∀ (v : Json) (rest : Bytes), (v.entries rest).Pairwise Entry.Before
  | .arr _ elems, rest => Elems.sorted_entries elems (closeBracket :: rest)
  | .obj _ members, rest => Members.sorted_entries members (closeBrace :: rest)
  | .str _, _ => .nil
  | .num _, _ => .nil
  | .true, _ => .nil
  | .false, _ => .nil
  | .null, _ => .nil

theorem Elems.sorted_entries : ∀ (es : Elems) (rest : Bytes), (es.entries rest).Pairwise Entry.Before
  | .nil, _ => .nil
  | .cons lead value trail more, rest => by
      refine List.pairwise_append.mpr
        ⟨Json.sorted_entries value _, Elems.sorted_entries more rest, fun e he e' he' => ?_⟩
      have hplace := (Json.place_entries value _ e he).2
      have hplace' := (Elems.place_entries more [comma] rest e' he').1
      simp only [List.length_append] at hplace hplace'
      exact show e'.place.length < e.place.length by omega

theorem Members.sorted_entries : ∀ (ms : Members) (rest : Bytes),
    (ms.entries rest).Pairwise Entry.Before
  | .nil, _ => .nil
  | .cons lead key beforeColon afterColon value trail more, rest => by
      have hmore : ∀ e ∈ more.entries rest,
          e.place.length < (trail.bytes ++ (more.text [comma] ++ rest)).length := by
        intro e he
        have hplace := (Members.place_entries more [comma] rest e he).1
        simp only [List.length_append] at hplace ⊢
        omega
      refine List.pairwise_cons.mpr ⟨fun e he => ?_, List.pairwise_append.mpr
        ⟨Json.sorted_entries value _, Members.sorted_entries more rest, fun e he e' he' => ?_⟩⟩
      · rcases List.mem_append.mp he with he | he
        · exact (Json.place_entries value _ e he).1
        · have hplace := hmore e he
          simp only [Entry.Before, Entry.place, List.length_append] at hplace ⊢
          omega
      · exact Nat.lt_of_lt_of_le (hmore e' he') (Json.place_entries value _ e he).2

end

theorem Entry.Before.place_ne {e e' : Entry} (h : e.Before e') : e.place ≠ e'.place := by
  intro heq
  rw [Entry.Before, heq] at h
  exact Nat.lt_irrefl _ h

/-- No two members of a document have one place. -/
theorem Document.place_inj (d : Document) {e e' : Entry} (he : e ∈ d.entries) (he' : e' ∈ d.entries)
    (hplace : e.place = e'.place) : e = e' := by
  have hsorted : d.entries.Pairwise Entry.Before := Members.sorted_entries d.members _
  have hsame : ∀ ⦃e⦄, e ∈ d.entries → ∀ ⦃e'⦄, e' ∈ d.entries → e.place = e'.place → e = e' := by
    refine List.Pairwise.forall_of_forall_of_flip (fun _ _ _ => rfl) ?_ ?_
    · exact hsorted.imp fun hbefore heq => absurd heq hbefore.place_ne
    · exact hsorted.imp fun hbefore heq => absurd heq.symm hbefore.place_ne
  exact hsame he he' hplace

theorem Members.own_subset : ∀ (ms : Members) (rest : Bytes), ms.own rest ⊆ ms.entries rest
  | .nil, _ => List.Subset.refl _
  | .cons _ _ _ _ _ _ more, rest =>
      List.cons_subset_cons _ fun _ he =>
        List.mem_append_right _ (Members.own_subset more rest he)

theorem Document.own_subset (d : Document) : d.own ⊆ d.entries := Members.own_subset d.members _

end Places

end UnicornSuite.Manifest
