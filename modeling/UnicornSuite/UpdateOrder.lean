import UnicornSuite.UpdateVersion

/-! The comparison is the precedence of what the code takes the two versions for: first the splitting
of a text, then the identifiers one by one, then the whole. -/

namespace UnicornSuite.Update

open CText Semver

section Split

/-- What may follow the core: nothing, or a part with its mark. -/
def Stops (s : CString) : Prop := ∀ c ∈ s.head?, isFieldChar c = false

theorem readField_cons (v k : Nat) (c : UInt8) (s : CString) : readField v (k + 1) (c :: s) =
    if isDigit c then readField (v * 10 + (c.toNat - 48)) k s else (v, c :: s) := rfl

theorem readField_digits {w s : CString} (v k : Nat) (hw : ∀ c ∈ w, isDigit c = true)
    (hs : k < w.length ∨ ∀ c ∈ s.head?, isDigit c = false) :
    readField v k (w ++ s) = (decimal v (w.take k), w.drop k ++ s) := by
  induction k generalizing v w with
  | zero => rfl
  | succ k ih =>
      cases w with
      | nil =>
          rcases hs with hs | hs
          · cases hs
          · cases s with
            | nil => rfl
            | cons c s =>
                rw [List.nil_append, readField_cons, if_neg (by simp [hs c rfl])]
                rfl
      | cons c w =>
          rw [List.cons_append, readField_cons, if_pos (hw c List.mem_cons_self),
            ih _ (fun d hd => hw d (List.mem_cons_of_mem _ hd)) ?_]
          · rfl
          · rcases hs with hs | hs
            · exact .inl (Nat.lt_of_succ_lt_succ hs)
            · exact .inr hs

theorem readField_dropWhile (v k : Nat) (s : CString) :
    (readField v k s).2.dropWhile isFieldChar = s.dropWhile isFieldChar := by
  induction k generalizing v s with
  | zero => rfl
  | succ k ih =>
      cases s with
      | nil => rfl
      | cons c s =>
          rw [readField_cons]
          split_ifs with hc
          · rw [ih, List.dropWhile_cons_of_pos (by simp [isFieldChar, hc])]
          · rfl

/-- A field and, behind a dot, those that follow. -/
theorem readFields_succ (i : Nat) (s : CString) : readFields (i + 1) s =
    if (readField 0 9 s).2.head? = some dot then
      ((readField 0 9 s).1 :: (readFields i (readField 0 9 s).2.tail).1,
        (readFields i (readField 0 9 s).2.tail).2)
    else ((readField 0 9 s).1 :: List.replicate i 0, (readField 0 9 s).2) := by
  rw [readFields]
  cases hrest : (readField 0 9 s).2 with
  | nil => rfl
  | cons c rest => simp only [List.head?_cons, Option.some.injEq, List.tail_cons]

/-- The reading of the fields goes over digits and dots only. -/
theorem readFields_dropWhile (i : Nat) (s : CString) :
    (readFields i s).2.dropWhile isFieldChar = s.dropWhile isFieldChar := by
  induction i generalizing s with
  | zero => rfl
  | succ i ih =>
      have hfield := readField_dropWhile 0 9 s
      rw [readFields_succ]
      split_ifs with hdot
      · obtain ⟨rest, hrest⟩ := List.head?_eq_some_iff.mp hdot
        rw [ih, ← hfield, hrest, List.tail_cons, List.dropWhile_cons_of_pos (by simp [isFieldChar])]
      · exact hfield

/-- Where no dot follows, the fields that are left are 0. -/
theorem readFields_stop {i : Nat} {s : CString} (hdot : (readField 0 9 s).2.head? ≠ some dot) :
    (readFields (i + 1) s).1 = (readField 0 9 s).1 :: List.replicate i 0 := by
  rw [readFields_succ, if_neg hdot]

theorem readFields_dot {i : Nat} {s rest : CString} (hdot : (readField 0 9 s).2 = dot :: rest) :
    (readFields (i + 1) s).1 = (readField 0 9 s).1 :: (readFields i rest).1 := by
  rw [readFields_succ, hdot, if_pos List.head?_cons, List.tail_cons]

theorem Stops.not_digit {s : CString} (h : Stops s) : ∀ c ∈ s.head?, isDigit c = false := by
  intro c hc
  have hfield := h c hc
  simp only [isFieldChar, Bool.decide_or, Bool.or_eq_false_iff] at hfield
  simpa using hfield.2

theorem Stops.not_dot {s : CString} (h : Stops s) : s.head? ≠ some dot := by
  intro hc
  cases h dot hc

theorem readFields_core (ns : List Numeral) {tail : CString} (htail : Stops tail) :
    (readFields ns.length (dotted (ns.map (·.text)) ++ tail)).1 = limitCore ns := by
  induction ns with
  | nil => rfl
  | cons n ns ih =>
      obtain ⟨next, htext, hnext⟩ : ∃ next, dotted ((n :: ns).map (·.text)) ++ tail = n.text ++ next ∧
          (ns = [] ∧ next = tail ∨ next = dot :: (dotted (ns.map (·.text)) ++ tail)) := by
        cases ns with
        | nil => exact ⟨tail, rfl, .inl ⟨rfl, rfl⟩⟩
        | cons m ns =>
            refine ⟨_, ?_, .inr rfl⟩
            rw [List.map_cons, dotted_cons (by simp), List.append_assoc, List.cons_append]
      have hhead : ∀ c ∈ next.head?, isDigit c = false := by
        rcases hnext with ⟨-, rfl⟩ | rfl
        · exact htail.not_digit
        · rintro c ⟨⟩
          rfl
      have hfield := readField_digits 0 9 n.digits (.inr hhead)
      rw [htext, List.length_cons]
      by_cases hlen : n.text.length ≤ 9
      · rw [List.take_of_length_le hlen, List.drop_eq_nil_of_le hlen, List.nil_append] at hfield
        rw [limitCore, if_pos hlen]
        rcases hnext with ⟨rfl, rfl⟩ | rfl
        · rw [readFields_stop (by rw [hfield]; exact htail.not_dot), hfield]
          rfl
        · rw [readFields_dot (by rw [hfield]), hfield, ih]
          rfl
      · have hdigit : (n.text.drop 9 ++ next).head? ≠ some dot := by
          obtain ⟨d, ds, hdrop⟩ := List.exists_cons_of_ne_nil
            (List.drop_eq_nil_iff.not.mpr (by omega) : n.text.drop 9 ≠ [])
          rw [hdrop, List.cons_append, List.head?_cons]
          intro hd
          have hdig := n.digits d (List.mem_of_mem_drop (hdrop ▸ List.mem_cons_self))
          rw [Option.some.inj hd] at hdig
          cases hdig
        rw [limitCore, if_neg hlen, readFields_stop (by rw [hfield]; exact hdigit), hfield]

theorem dotted_fieldChar {ws : List CString} (hws : ∀ w ∈ ws, ∀ c ∈ w, isDigit c = true) :
    ∀ c ∈ dotted ws, isFieldChar c = true := by
  induction ws with
  | nil => nofun
  | cons w ws ih =>
      have hhead : ∀ c ∈ w, isFieldChar c = true := by
        intro c hc
        simp [isFieldChar, hws w List.mem_cons_self c hc]
      cases ws with
      | nil => exact hhead
      | cons w' ws =>
          intro c hc
          rw [dotted_cons (List.cons_ne_nil _ _), List.mem_append, List.mem_cons] at hc
          rcases hc with hc | rfl | hc
          · exact hhead c hc
          · rfl
          · exact ih (fun v hv => hws v (List.mem_cons_of_mem _ hv)) c hc

theorem core_fieldChar (v : Version) : ∀ c ∈ v.coreText, isFieldChar c = true := by
  refine dotted_fieldChar ?_
  intro w hw
  obtain ⟨n, -, rfl⟩ := List.mem_map.mp hw
  exact n.digits

/-- A core begins with a digit. -/
theorem core_head (v : Version) : ∃ c s, v.coreText = c :: s ∧ isDigit c = true := by
  obtain ⟨c, s, hcons⟩ := List.exists_cons_of_ne_nil v.major.ne_nil
  refine ⟨c, s ++ dot :: dotted [v.minor.text, v.patch.text], ?_, v.major.digits c (hcons ▸
    List.mem_cons_self)⟩
  show dotted [v.major.text, v.minor.text, v.patch.text] = _
  rw [dotted_cons (List.cons_ne_nil _ _), hcons, List.cons_append]

theorem part_head {mark : UInt8} {ws : List CString} {c : UInt8}
    (hc : c ∈ (part mark ws).head?) : c = mark := by
  unfold part at hc
  split_ifs at hc
  · cases hc
  · exact (Option.some.inj hc).symm

/-- Identifiers with the text behind the last of them. -/
def wordsThen (xs : List Ident) (tail : CString) : CString :=
  if xs = [] then [] else dotted (xs.map (·.text)) ++ tail

def buildText (v : Version) : CString := part plus (v.build.map (·.text))

/-- What `ver_split` takes for the pre-release: the identifiers, with the metadata behind them. -/
def restText (v : Version) : CString := wordsThen v.pre (buildText v)

theorem skipMark {one s : CString} {d : UInt8} (hone : one = [] ∨ one = [0x76] ∨ one = [0x56])
    (hd : isDigit d = true) :
    (if (one ++ d :: s).head? = some 0x76 ∨ (one ++ d :: s).head? = some 0x56 then
      (one ++ d :: s).tail else one ++ d :: s) = d :: s := by
  rcases hone with rfl | rfl | rfl
  · rw [List.nil_append, if_neg]
    rintro (h | h)
    all_goals
      rw [Option.some.inj h] at hd
      cases hd
  · rfl
  · rfl

/-- What follows the core. -/
def tailText (v : Version) : CString :=
  part hyphen (v.pre.map (·.text)) ++ part plus (v.build.map (·.text))

theorem tail_stops (v : Version) : Stops (tailText v) := by
  intro c hc
  rw [tailText, List.head?_append] at hc
  rcases Option.or_eq_some_iff.mp hc with hpre | ⟨-, hbuild⟩
  · rw [part_head hpre]
    rfl
  · rw [part_head hbuild]
    rfl

theorem tail_rest (v : Version) :
    (if (tailText v).head? = some hyphen then (tailText v).tail else []) = restText v := by
  unfold tailText restText wordsThen buildText part
  by_cases hpre : v.pre = []
  · rw [hpre, if_pos rfl, List.map_nil, if_pos rfl, List.nil_append]
    rw [if_neg]
    intro hhead
    have hplus : hyphen = plus := part_head hhead
    cases hplus
  · have hmap : v.pre.map (·.text) ≠ [] := by simpa using hpre
    rw [if_neg hmap, List.cons_append, List.head?_cons, if_pos rfl, List.tail_cons, if_neg hpre]

theorem verSplit_text (l : Lead) (v : Version) :
    verSplit (l.text ++ v.text) = (limitCore v.core, restText v) := by
  obtain ⟨d, s, hcore, hd⟩ := core_head v
  have htext : v.text = d :: (s ++ tailText v) := by
    rw [Version.text, List.append_assoc, hcore]
    rfl
  have hblank : (l.text ++ v.text).dropWhile isBlank = l.mark ++ v.text := by
    rw [Lead.text, List.append_assoc]
    refine dropWhile_append l.blank ?_
    intro c hc
    rw [htext] at hc
    rcases l.one with hone | hone | hone
    · rw [hone, List.nil_append, List.head?_cons, Option.mem_some] at hc
      subst hc
      by_contra hb
      simp only [isBlank, Bool.not_eq_false, decide_eq_true_eq] at hb
      rcases hb with rfl | rfl <;> cases hd
    · rw [hone] at hc
      rw [← Option.some.inj hc]
      rfl
    · rw [hone] at hc
      rw [← Option.some.inj hc]
      rfl
  have hskip := skipMark (s := s ++ tailText v) l.one hd
  have hfields : (readFields 3 v.text).1 = limitCore v.core := by
    rw [Version.text, List.append_assoc]
    exact readFields_core v.core (tail_stops v)
  have hdrop : (readFields 3 v.text).2.dropWhile isFieldChar = tailText v := by
    rw [readFields_dropWhile, Version.text, List.append_assoc]
    exact dropWhile_append (core_fieldChar v) (tail_stops v)
  unfold verSplit
  simp only
  rw [hblank, htext, hskip, ← htext, hfields, hdrop, tail_rest]

end Split

section Identifiers

/-- What may follow an identifier. -/
def Follows (s : CString) : Prop := ∀ c ∈ s.head?, c = dot

variable {x y : Ident} {s t : CString}

theorem ne_dot (x : Ident) : ∀ c ∈ x.text, decide (c ≠ dot) = true := by
  intro c hc
  simpa using fun hdot : c = dot => x.dot_notMem (hdot ▸ hc)

theorem Follows.dot (hs : Follows s) : ∀ c ∈ s.head?, decide (c ≠ Semver.dot) = false := by
  intro c hc
  simpa using hs c hc

theorem ident_text (hs : Follows s) : ident (x.text ++ s) = x.text :=
  takeWhile_append (ne_dot x) hs.dot

theorem afterIdent_text (hs : Follows s) : afterIdent (x.text ++ s) = s.tail := by
  rw [afterIdent, dropWhile_append (ne_dot x) hs.dot]

theorem identIsNum_text (x : Ident) : identIsNum x.text = x.isNum := by
  simp [identIsNum, Ident.isNum, x.ne_nil]

theorem strtoul_text (hx : x.isNum = true) (hs : Follows s) :
    strtoul (x.text ++ s) = min (decimal 0 x.text) ulongMax := by
  rw [strtoul, takeWhile_append (fun c hc => List.all_eq_true.mp hx c hc)]
  intro c hc
  rw [hs c hc]
  rfl

theorem sign_compare_nat (m n : Nat) :
    sign (compare m n) = if m ≠ n then if m < n then -1 else 1 else 0 := by
  rw [Nat.compare_eq_ite_lt]
  split_ifs <;> first | rfl | omega

/-- Two words by `strncmp` and their lengths. -/
theorem strncmp_text (x y : Ident) (s t : CString) :
    strncmp (x.text ++ s) (y.text ++ t)
      (if x.text.length < y.text.length then x.text.length else y.text.length) =
    sign (compare (x.text.take (min x.text.length y.text.length))
      (y.text.take (min x.text.length y.text.length))) := by
  have hmin : (if x.text.length < y.text.length then x.text.length else y.text.length) =
      min x.text.length y.text.length := by
    split_ifs <;> omega
  rw [hmin, strncmp_eq_compare, List.take_append_of_le_length (Nat.min_le_left _ _),
    List.take_append_of_le_length (Nat.min_le_right _ _)]

theorem rank_num (hx : x.isNum = true) : x.rank = .num (decimal 0 x.text) := if_pos hx

theorem rank_word (hx : x.isNum = false) : x.rank = .word x.text := if_neg (by simp [hx])

/-- One round is the order of the two identifiers. -/
theorem identCmp_text (hs : Follows s) (ht : Follows t) :
    identCmp (x.text ++ s) (y.text ++ t) =
      sign (Rank.compare (limitRank x.rank) (limitRank y.rank)) := by
  unfold identCmp
  simp only
  rw [ident_text hs, ident_text ht, identIsNum_text, identIsNum_text]
  cases hx : x.isNum with
  | true =>
      cases hy : y.isNum with
      | true =>
          rw [strtoul_text hx hs, strtoul_text hy ht, rank_num hx, rank_num hy, limitRank, limitRank,
            Rank.compare, sign_compare_nat]
          rfl
      | false =>
          rw [rank_num hx, rank_word hy]
          rfl
  | false =>
      cases hy : y.isNum with
      | true =>
          rw [rank_word hx, rank_num hy]
          rfl
      | false =>
          rw [strncmp_text, rank_word hx, rank_word hy, limitRank, limitRank, Rank.compare,
            compare_eq_heads_then x.text y.text, sign_then, sign_compare_nat]
          cases compare (x.text.take (min x.text.length y.text.length))
            (y.text.take (min x.text.length y.text.length)) <;> rfl

/-- What the code takes the identifiers for. -/
def limitRanks (xs : List Ident) : List Rank := xs.map fun x => limitRank x.rank

theorem wordsThen_ne_nil {xs : List Ident} (hxs : xs ≠ []) (tail : CString) :
    wordsThen xs tail ≠ [] := by
  obtain ⟨x, xs, rfl⟩ := List.exists_cons_of_ne_nil hxs
  exact List.append_ne_nil_of_left_ne_nil (dotted_ne_nil x.ne_nil) _

theorem wordsThen_split (x : Ident) {xs : List Ident} {tail : CString} (htail : xs = [] → tail = []) :
    ∃ s, wordsThen (x :: xs) tail = x.text ++ s ∧ Follows s ∧ s.tail = wordsThen xs tail := by
  cases xs with
  | nil => exact ⟨[], by rw [htail rfl]; rfl, nofun, rfl⟩
  | cons x' xs =>
      refine ⟨dot :: wordsThen (x' :: xs) tail, ?_, ?_, rfl⟩
      · show dotted (x.text :: x'.text :: xs.map (·.text)) ++ tail = _
        rw [dotted_cons (List.cons_ne_nil _ _), List.append_assoc]
        rfl
      · rintro c ⟨⟩
        rfl

theorem prereleaseCmp_nil (b : CString) : prereleaseCmp [] b = if b = [] then 0 else -1 := by
  rw [prereleaseCmp, dif_pos rfl]

theorem prereleaseCmp_round {a b : CString} (ha : a ≠ []) (hb : b ≠ []) :
    prereleaseCmp a b =
      if identCmp a b ≠ 0 then identCmp a b else prereleaseCmp (afterIdent a) (afterIdent b) := by
  rw [prereleaseCmp, dif_neg ha, if_neg hb]

/-- The comparison comes to an identifier with build metadata behind it. -/
def MeetsBuild (abuild bbuild : List BuildIdent) : List Ident → List Ident → Prop
  | x :: xs, y :: ys =>
      xs = [] ∧ abuild ≠ [] ∨ ys = [] ∧ bbuild ≠ [] ∨
        Rank.compare (limitRank x.rank) (limitRank y.rank) = .eq ∧ MeetsBuild abuild bbuild xs ys
  | _, _ => False

/-- Identifier by identifier, from the left. -/
theorem prereleaseCmp_words {a b : Version} {xs ys : List Ident}
    (h : ¬ MeetsBuild a.build b.build xs ys) :
    prereleaseCmp (wordsThen xs (buildText a)) (wordsThen ys (buildText b)) =
      sign (List.compareLex Rank.compare (limitRanks xs) (limitRanks ys)) := by
  induction xs generalizing ys with
  | nil =>
      refine (prereleaseCmp_nil _).trans ?_
      cases ys with
      | nil => rfl
      | cons y ys => exact if_neg (wordsThen_ne_nil (List.cons_ne_nil y ys) _)
  | cons x xs ih =>
      have hx := wordsThen_ne_nil (List.cons_ne_nil x xs) (buildText a)
      cases ys with
      | nil =>
          rw [prereleaseCmp, dif_neg hx]
          rfl
      | cons y ys =>
          have hy := wordsThen_ne_nil (List.cons_ne_nil y ys) (buildText b)
          rw [MeetsBuild, not_or, not_or] at h
          have hbuild {v : Version} {zs : List Ident} (hv : ¬ (zs = [] ∧ v.build ≠ []))
              (hzs : zs = []) : buildText v = [] := by
            have hnil : v.build = [] := by
              by_contra hne
              exact hv ⟨hzs, hne⟩
            rw [buildText, hnil]
            rfl
          obtain ⟨s, hxtext, hs, hxs⟩ := wordsThen_split x (hbuild h.1)
          obtain ⟨t, hytext, ht, hys⟩ := wordsThen_split y (hbuild h.2.1)
          have hranks : List.compareLex Rank.compare (limitRanks (x :: xs)) (limitRanks (y :: ys)) =
              (Rank.compare (limitRank x.rank) (limitRank y.rank)).then
                (List.compareLex Rank.compare (limitRanks xs) (limitRanks ys)) :=
            List.compareLex_cons_cons
          rw [prereleaseCmp_round hx hy, hxtext, hytext, identCmp_text hs ht, afterIdent_text hs,
            afterIdent_text ht, hxs, hys, hranks, sign_then]
          by_cases hsame : sign (Rank.compare (limitRank x.rank) (limitRank y.rank)) = 0
          · rw [if_neg (not_not.mpr hsame), if_pos hsame]
            exact ih fun hmeets => h.2.2 ⟨sign_eq_zero.mp hsame, hmeets⟩
          · rw [if_pos hsame, if_neg hsame]

end Identifiers

section Compare

theorem limitCore_length (ns : List Numeral) : (limitCore ns).length = ns.length := by
  induction ns with
  | nil => rfl
  | cons n ns ih =>
      rw [limitCore]
      split_ifs
      · rw [List.length_cons, ih, List.length_cons]
      · rw [List.length_cons, List.length_replicate, List.length_cons]

theorem compareFields_eq {ms ns : List Nat} (h : ms.length = ns.length) :
    compareFields ms ns = sign (compare ms ns) := by
  induction ms generalizing ns with
  | nil =>
      obtain rfl := List.length_eq_zero_iff.mp h.symm
      rfl
  | cons m ms ih =>
      cases ns with
      | nil => cases h
      | cons n ns =>
          rw [compareFields, List.compare_cons_cons, sign_then, sign_compare_nat,
            ih (Nat.succ.inj h)]
          split_ifs <;> simp_all

/-- Where the core fields agree, the pre-releases decide. -/
theorem restText_compare {a b : Version} (h : ¬ MeetsBuild a.build b.build a.pre b.pre) :
    (if restText a = [] ∧ restText b = [] then 0 else if restText a = [] then 1
      else if restText b = [] then -1 else prereleaseCmp (restText a) (restText b)) =
      sign (comparePre (limitRanks a.pre) (limitRanks b.pre)) := by
  by_cases ha : a.pre = []
  · have hrest : restText a = [] := if_pos ha
    by_cases hb : b.pre = []
    · rw [if_pos ⟨hrest, if_pos hb⟩, ha, hb]
      rfl
    · obtain ⟨y, ys, hys⟩ := List.exists_cons_of_ne_nil hb
      rw [if_neg fun hboth => wordsThen_ne_nil hb _ hboth.2, if_pos hrest, ha, hys]
      rfl
  · obtain ⟨x, xs, hxs⟩ := List.exists_cons_of_ne_nil ha
    have hrest : restText a ≠ [] := wordsThen_ne_nil ha _
    rw [if_neg fun hboth => hrest hboth.1, if_neg hrest]
    by_cases hb : b.pre = []
    · have hrest : restText b = [] := if_pos hb
      rw [if_pos hrest, hxs, hb]
      rfl
    · obtain ⟨y, ys, hys⟩ := List.exists_cons_of_ne_nil hb
      have hrest' : restText b ≠ [] := wordsThen_ne_nil hb _
      rw [if_neg hrest', restText, restText, prereleaseCmp_words h, hxs, hys]
      rfl

/-- The comparison, unless it reads build metadata behind a pre-release. -/
theorem compareVersions_limited (l m : Lead) {a b : Version}
    (h : (limited a).core = (limited b).core → ¬ MeetsBuild a.build b.build a.pre b.pre) :
    compareVersions (l.text ++ a.text) (m.text ++ b.text) =
      sign (precedence (limited a) (limited b)) := by
  have hcore : compareFields (limitCore a.core) (limitCore b.core) =
      sign (compare (limited a).core (limited b).core) :=
    compareFields_eq (by rw [limitCore_length, limitCore_length]; rfl)
  unfold compareVersions
  simp only
  rw [verSplit_text, verSplit_text, hcore, precedence, sign_then]
  by_cases hequal : sign (compare (limited a).core (limited b).core) = 0
  · have hagree : (limited a).core = (limited b).core :=
      Std.LawfulEqOrd.compare_eq_iff_eq.mp (sign_eq_zero.mp hequal)
    rw [if_neg (not_not.mpr hequal), if_pos hequal, restText_compare (h hagree)]
    rfl
  · rw [if_pos hequal, if_neg hequal]

/-- The comparison is the precedence of what the code takes the versions for, and of the versions
themselves where both are within its limits. -/
theorem compareVersions_precedence (l m : Lead) {a b : Version}
    (h : (limited a).core = (limited b).core → ¬ MeetsBuild a.build b.build a.pre b.pre) :
    compareVersions (l.text ++ a.text) (m.text ++ b.text) =
        sign (precedence (limited a) (limited b)) ∧
      (InLimits a → InLimits b →
        compareVersions (l.text ++ a.text) (m.text ++ b.text) =
          sign (precedence a.value b.value)) := by
  have hlimited := compareVersions_limited l m h
  refine ⟨hlimited, ?_⟩
  intro ha hb
  rw [hlimited, limited_of_inLimits ha, limited_of_inLimits hb]

def zero : Numeral := ⟨[0x30], by decide, List.all_eq_true.mp rfl, fun _ => rfl⟩

/-- 0.0.0 with a pre-release of one identifier. -/
def preOnly (x : Ident) : Version := ⟨zero, zero, zero, [x], []⟩

def two : Ident := ⟨[0x32], by decide, List.all_eq_true.mp rfl, fun _ => by unfold Plain; decide⟩

def ten : Ident := ⟨[0x31, 0x30], by decide, List.all_eq_true.mp rfl, fun _ => by unfold Plain; decide⟩

theorem compareVersions_precedence_ten :
    compareVersions (preOnly two).text (preOnly ten).text =
        sign (precedence (limited (preOnly two)) (limited (preOnly ten))) ∧
      (InLimits (preOnly two) → InLimits (preOnly ten) →
        compareVersions (preOnly two).text (preOnly ten).text =
          sign (precedence (preOnly two).value (preOnly ten).value)) := by
  refine compareVersions_precedence (a := preOnly two) (b := preOnly ten)
    ⟨[], [], nofun, .inl rfl⟩ ⟨[], [], nofun, .inl rfl⟩ ?_
  intro _ hmeets
  rcases hmeets with ⟨-, hbuild⟩ | ⟨-, hbuild⟩ | ⟨-, hmeets⟩
  · exact hbuild rfl
  · exact hbuild rfl
  · exact hmeets

/-- 1000000000.0.0 and 999999999.0.0. -/
def tenDigits : Version :=
  ⟨⟨0x31 :: List.replicate 9 0x30, by decide, List.all_eq_true.mp rfl, by unfold Plain; decide⟩,
    zero, zero, [], []⟩

def nineDigits : Version :=
  ⟨⟨List.replicate 9 0x39, by decide, List.all_eq_true.mp rfl, by unfold Plain; decide⟩,
    zero, zero, [], []⟩

/-- 0.0.0-4294967295 and 0.0.0-4294967296. -/
def lastNumber : Version :=
  preOnly ⟨[0x34, 0x32, 0x39, 0x34, 0x39, 0x36, 0x37, 0x32, 0x39, 0x35], by decide,
    List.all_eq_true.mp rfl, fun _ => by unfold Plain; decide⟩

def nextNumber : Version :=
  preOnly ⟨[0x34, 0x32, 0x39, 0x34, 0x39, 0x36, 0x37, 0x32, 0x39, 0x36], by decide,
    List.all_eq_true.mp rfl, fun _ => by unfold Plain; decide⟩

/-- 0.0.0-2+1 and 0.0.0-2+2. -/
def firstBuild : Version := { preOnly two with build := [⟨[0x31], by decide, List.all_eq_true.mp rfl⟩] }

def secondBuild : Version := { preOnly two with build := [⟨[0x32], by decide, List.all_eq_true.mp rfl⟩] }

/-- A tenth digit, a number above `ULONG_MAX`, and metadata behind a pre-release. -/
theorem compareVersions_deviates :
    (compareVersions tenDigits.text nineDigits.text = -1 ∧
      precedence tenDigits.value nineDigits.value = .gt) ∧
    (compareVersions lastNumber.text nextNumber.text = 0 ∧
      precedence lastNumber.value nextNumber.value = .lt) ∧
    (compareVersions firstBuild.text secondBuild.text = -1 ∧
      precedence firstBuild.value secondBuild.value = .eq) := by
  decide +kernel

end Compare

end UnicornSuite.Update

/-! The comparison on arbitrary strings. Whatever a string is, the code takes it for a version: its
numeric triple, and its pre-release cut at the dots. On these the comparison is the precedence of
versions, so it is a total preorder. -/

namespace UnicornSuite.Update

open CText Semver

/-- What `prerelease_cmp` takes an identifier for. -/
def identRank (w : CString) : Rank :=
  if identIsNum w then .num (min (decimal 0 w) ulongMax) else .word w

/-- What `prerelease_cmp` takes a pre-release for. -/
def preRanks (s : CString) : List Rank :=
  if _ : s = [] then [] else identRank (ident s) :: preRanks (afterIdent s)
termination_by s.length
decreasing_by exact tail_dropWhile_lt _ ‹_›

/-- What `suite_update_compare_versions` takes a string for. -/
def stringValue (s : CString) : Value := ⟨(verSplit s).1, preRanks (verSplit s).2⟩

section Identifiers

theorem preRanks_nil : preRanks [] = [] := by
  rw [preRanks, dif_pos rfl]

theorem preRanks_of_ne_nil {s : CString} (hs : s ≠ []) :
    preRanks s = identRank (ident s) :: preRanks (afterIdent s) := by
  rw [preRanks, dif_neg hs]

theorem ident_eq_take (s : CString) : ident s = s.take (ident s).length :=
  List.prefix_iff_eq_take.mp (List.takeWhile_prefix _)

/-- An identifier of digits is what `strtoul` reads. -/
theorem strtoul_ident {s : CString} (h : identIsNum (ident s) = true) :
    strtoul s = min (decimal 0 (ident s)) ulongMax := by
  have hdigits : ∀ c ∈ ident s, isDigit c = true := List.all_eq_true.mp (Bool.and_eq_true_iff.mp h).2
  have hrest : ∀ c ∈ (s.dropWhile (· ≠ dot)).head?, isDigit c = false := by
    intro c hc
    have hdot : c = dot := by
      have hstop := List.head?_dropWhile_not (· ≠ dot) s
      rw [hc] at hstop
      by_contra hne
      simp [hne] at hstop
    rw [hdot]
    decide
  have hrun : s.takeWhile isDigit = ident s := by
    conv_lhs => rw [← List.takeWhile_append_dropWhile (p := (· ≠ dot)) (l := s)]
    exact takeWhile_append hdigits hrest
  rw [strtoul, hrun]

/-- One round is the order of the two identifiers, whatever they are. -/
theorem identCmp_eq (a b : CString) :
    identCmp a b = sign (Rank.compare (identRank (ident a)) (identRank (ident b))) := by
  unfold identCmp
  dsimp only
  cases ha : identIsNum (ident a) with
  | true =>
      cases hb : identIsNum (ident b) with
      | true =>
          rw [strtoul_ident ha, strtoul_ident hb, identRank, if_pos ha, identRank, if_pos hb,
            Rank.compare, sign_compare_nat]
          rfl
      | false =>
          rw [identRank, if_pos ha, identRank, if_neg (Bool.eq_false_iff.mp hb)]
          rfl
  | false =>
      cases hb : identIsNum (ident b) with
      | true =>
          rw [identRank, if_neg (Bool.eq_false_iff.mp ha), identRank, if_pos hb]
          rfl
      | false =>
          have hmin : (if (ident a).length < (ident b).length then (ident a).length
              else (ident b).length) = min (ident a).length (ident b).length := by
            split_ifs <;> omega
          have htake : ∀ s : CString, ∀ n ≤ (ident s).length, s.take n = (ident s).take n := by
            intro s n hn
            conv_rhs => rw [ident_eq_take s, List.take_take, Nat.min_eq_left hn]
          rw [identRank, if_neg (Bool.eq_false_iff.mp ha), identRank,
            if_neg (Bool.eq_false_iff.mp hb), Rank.compare, compare_eq_heads_then, sign_then,
            sign_compare_nat, hmin, strncmp_eq_compare, htake a _ (Nat.min_le_left _ _),
            htake b _ (Nat.min_le_right _ _)]
          cases compare ((ident a).take (min (ident a).length (ident b).length))
            ((ident b).take (min (ident a).length (ident b).length)) <;> rfl

theorem prereleaseCmp_eq (a b : CString) :
    prereleaseCmp a b = sign (List.compareLex Rank.compare (preRanks a) (preRanks b)) := by
  induction a, b using prereleaseCmp.induct with
  | case1 => rw [prereleaseCmp_nil, if_pos rfl, preRanks_nil]; rfl
  | case2 b hb =>
      rw [prereleaseCmp_nil, if_neg hb, preRanks_nil, preRanks_of_ne_nil hb]
      rfl
  | case3 a ha =>
      rw [prereleaseCmp, dif_neg ha, if_pos rfl, preRanks_nil, preRanks_of_ne_nil ha]
      rfl
  | case4 a b ha hb c hc =>
      rw [prereleaseCmp_round ha hb, preRanks_of_ne_nil ha, preRanks_of_ne_nil hb,
        List.compareLex_cons_cons, sign_then, ← identCmp_eq, if_pos hc, if_neg hc]
  | case5 a b ha hb c hc ih =>
      rw [prereleaseCmp_round ha hb, preRanks_of_ne_nil ha, preRanks_of_ne_nil hb,
        List.compareLex_cons_cons, sign_then, ← identCmp_eq, if_neg hc,
        if_pos (not_not.mp hc), ih]

end Identifiers

section Order

theorem readFields_length (i : Nat) (s : CString) : (readFields i s).1.length = i := by
  induction i generalizing s with
  | zero => rfl
  | succ i ih =>
      rw [readFields]
      dsimp only
      split
      · simp
      · split
        · rw [List.length_cons, ih]
        · simp

/-- On every pair of strings the comparison is the precedence of what they are taken for. -/
theorem compareVersions_eq (a b : CString) :
    compareVersions a b = sign (precedence (stringValue a) (stringValue b)) := by
  have hlen : (verSplit a).1.length = (verSplit b).1.length := by
    rw [verSplit, verSplit, readFields_length, readFields_length]
  unfold compareVersions
  dsimp only
  rw [precedence, sign_then, compareFields_eq hlen, stringValue, stringValue]
  by_cases hcore : sign (compare (verSplit a).1 (verSplit b).1) = 0
  · rw [if_neg (not_not.mpr hcore), if_pos hcore]
    by_cases ha : (verSplit a).2 = []
    · by_cases hb : (verSplit b).2 = []
      · rw [if_pos ⟨ha, hb⟩, ha, hb, preRanks_nil]
        rfl
      · rw [if_neg fun hboth => hb hboth.2, if_pos ha, ha, preRanks_nil, preRanks_of_ne_nil hb]
        rfl
    · rw [if_neg fun hboth => ha hboth.1, if_neg ha]
      by_cases hb : (verSplit b).2 = []
      · rw [if_pos hb, hb, preRanks_nil, preRanks_of_ne_nil ha]
        rfl
      · rw [if_neg hb, prereleaseCmp_eq, preRanks_of_ne_nil ha, preRanks_of_ne_nil hb]
        rfl
  · rw [if_pos hcore, if_neg hcore]

theorem sign_swap (x : Ordering) : sign x.swap = -sign x := by
  cases x <;> rfl

theorem sign_le_zero {x : Ordering} : sign x ≤ 0 ↔ x.isLE = true := by
  cases x <;> decide

theorem sign_neg {x : Ordering} : sign x < 0 ↔ x = .lt := by
  cases x <;> decide

/-- The comparison of arbitrary strings is a total preorder: each equals itself, the two orders of a
pair give opposite signs, and it is transitive, strictly where one of the steps is. -/
theorem compareVersions_preorder (a b c : CString) :
    compareVersions a a = 0 ∧ compareVersions b a = -compareVersions a b ∧
      (compareVersions a b ≤ 0 → compareVersions b c ≤ 0 → compareVersions a c ≤ 0) ∧
      (compareVersions a b < 0 → compareVersions b c ≤ 0 → compareVersions a c < 0) ∧
      (compareVersions a b ≤ 0 → compareVersions b c < 0 → compareVersions a c < 0) := by
  have htrans := transCmp_precedence
  have hrefl : precedence (stringValue a) (stringValue a) = .eq := Std.ReflCmp.compare_self
  have hswap : precedence (stringValue b) (stringValue a) =
      (precedence (stringValue a) (stringValue b)).swap := htrans.eq_swap
  simp only [compareVersions_eq, sign_le_zero, sign_neg]
  rw [hrefl, hswap, sign_swap]
  exact ⟨rfl, rfl, Std.TransCmp.isLE_trans, Std.TransCmp.lt_of_lt_of_isLE,
    Std.TransCmp.lt_of_isLE_of_lt⟩

end Order

end UnicornSuite.Update
