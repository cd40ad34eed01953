import RowPipeline.Proofs.GrammarSoundness
import RowPipeline.Proofs.Placeholders

/-!
# Parameters of expressions in texts

The parser reads a parameter off a token for it, and the scan for placeholders finds the name of every
such token that is a name to the scan as well. So the parameters of an expression are among the names
found in its text.
-/

namespace RowPipeline

namespace Grammar

open RowPipeline.Expr

/-! ## Tokens -/

/-- Whether a phrase mentions a parameter. The function of a window is read before the phrase. -/
def Phrase.Mentions (name : String) : Phrase → Prop
  | .expr _ e => .param name ∈ e.subterms
  | .list es | .items es | .partitions es | .partitionClause es => .param name ∈ subtermsOfList es
  | .argument _ _ e | .operand e | .otherwise e => .param name ∈ subtermsOfOption e
  | .overWindow func e => .param name ∈ e.subterms ∧ .param name ∉ subtermsOfFunction func
  | .keys ks | .orderClause ks => .param name ∈ subtermsOfKeys ks
  | .branches bs => .param name ∈ subtermsOfBranches bs

theorem mem_subterms_negate {name : String} {e : Expr}
    (h : .param name ∈ (Parser.negate e).subterms) : .param name ∈ e.subterms := by
  unfold Parser.negate at h
  split at h
  · simp [subterms] at h
  · simp [subterms] at h
  · simpa [subterms] using h

theorem subtermsOfFunction_ranking {upper : String} {func : WindowFunction Expr}
    (h : Parser.rankingOfName? upper = some func) : subtermsOfFunction func = [] := by
  unfold Parser.rankingOfName? at h
  split at h
  all_goals first
    | (cases h; done)
    | (cases h; rfl)

theorem eq_param_of_atom? {t : Token} {name : String} (h : atom? t = some (.param name)) :
    t = .param name := by
  cases t with
  | param other =>
      cases h
      rfl
  | ident word =>
      rw [atom?] at h
      repeat' split at h
      all_goals cases h
  | _ => cases h

/-- A phrase mentions the parameters of its tokens only. -/
theorem Derives.param_mem {s s' : Nat} {ts : List Token} {p : Phrase} (h : Derives s ts p s')
    {name : String} (mentions : p.Mentions name) : .param name ∈ ts := by
  induction h with
  | @atom s t e is =>
      have hatom : e = .param name := by
        rcases atom?_eq_some is with ⟨v, rfl⟩ | ⟨field, rfl⟩ | ⟨other, rfl⟩
        · simp [Phrase.Mentions, subterms] at mentions
        · simp [Phrase.Mentions, subterms] at mentions
        · exact (List.mem_singleton.mp mentions).symm
      rw [hatom] at is
      exact List.mem_singleton.mpr (eq_param_of_atom? is).symm
  | @windowed _ _ _ _ _ found _ _ _ arg e ranking aggregate _ word _ ihargument ihover =>
      by_cases hargument : .param name ∈ subtermsOfOption arg
      · have := ihargument hargument
        simp [this]
      · have := ihover ⟨mentions, hargument⟩
        simp [this]
  | ranking ranking word _ ih =>
      have := ih ⟨mentions, by simp [subtermsOfFunction_ranking ranking]⟩
      simp [this]
  | minus _ ih => exact List.mem_cons_of_mem _ (ih (mem_subterms_negate mentions))
  | overWindow _ _ ihpartition ihorder =>
      obtain ⟨hwindow, hfunction⟩ := mentions
      simp only [subterms, subtermsOfSpec, List.mem_cons, reduceCtorEq, List.mem_append, hfunction,
        false_or] at hwindow
      rcases hwindow with h | h
      · have := ihpartition h
        simp [this]
      · have := ihorder h
        simp [this]
  | _ =>
      simp only [Phrase.Mentions, subterms, subtermsOfList, subtermsOfOption, subtermsOfBranches,
        subtermsOfKeys, List.mem_cons, List.mem_append, reduceCtorEq, false_or] at *
      grind

end Grammar

/-! ## Texts -/

namespace Lexer

/-- A token for a parameter is found as a reference, if its name is one to the scan. -/
theorem reference_of_tokensFrom {total fuel : Nat} {cs : List Char} {ps : List Spanned}
    (h : tokensFrom total fuel cs = .ok ps) {p : Spanned} (hp : p ∈ ps) {name : String}
    (hparam : p.token = .param name) (hname : Piece.isName name.toList = true) :
    ∃ source, .reference name source ∈ Piece.scanFrom 0 cs := by
  induction fuel generalizing cs ps with
  | zero =>
      cases h
      cases hp
  | succ fuel ih =>
      have hblank : '$' ∉ cs.takeWhile Text.isBlank := fun hmem =>
        absurd (takeWhile_all cs _ hmem) (by decide)
      have hscan : ∀ piece ∈ Piece.scanFrom 0 (cs.dropWhile Text.isBlank),
          piece ∈ Piece.scanFrom 0 cs := by
        intro piece hpiece
        rw [← List.takeWhile_append_dropWhile (p := Text.isBlank) (l := cs),
          Piece.scanFrom_clean hblank]
        exact List.mem_append_right _ hpiece
      rw [tokensFrom] at h
      split at h
      · cases h
        cases hp
      · rename_i c rest hcs
        split at h
        · cases h
        · rename_i token left htoken
          obtain ⟨others, hothers, rfl⟩ := map_eq_ok h
          obtain ⟨tail, last, rfl, -, hspells, -⟩ := takeToken_spec htoken
          rw [hcs, ← List.cons_append, Piece.scanFrom_lexeme hspells] at hscan
          rcases List.mem_cons.mp hp with rfl | hp
          · -- the token is the first lexeme, which is one reference
            obtain rfl : token = .param name := hparam
            rw [Piece.scanFrom_param hname hspells] at hscan
            exact ⟨_, hscan _ (List.mem_append_left _ (List.mem_singleton.mpr rfl))⟩
          · obtain ⟨source, hsource⟩ := ih hothers hp
            exact ⟨source, hscan _ (List.mem_append_right _ hsource)⟩

end Lexer

/-- The parameters of an expression whose names are names to the scan are found in its text. -/
theorem Expr.params_subset_names {text : String} {e : Expr} (h : Expr.parse text = .ok e)
    {name : String} (mem : name ∈ e.params) (hname : Piece.isName name.toList = true) :
    name ∈ Piece.names text := by
  obtain ⟨ps, s, htokens, -, hderives⟩ := derives_of_parse h
  have hterm : .param name ∈ e.subterms := by
    obtain ⟨term, hterm, hsome⟩ := List.mem_filterMap.mp mem
    cases term with
    | param other =>
        obtain rfl := Option.some.inj hsome
        exact hterm
    | _ => cases hsome
  obtain ⟨p, hp, hparam⟩ := List.mem_map.mp (hderives.param_mem hterm)
  exact Piece.mem_names.mpr (Lexer.reference_of_tokensFrom htokens hp hparam hname)

end RowPipeline
