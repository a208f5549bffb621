import ItemLexicon.Item.Snapshot
import ItemLexicon.Selector.Basic

namespace ItemLexicon

open Json

structure SelectorSnapshot where
  items : List ItemSnapshot
  amount : Int
  all : Bool

namespace SelectorSnapshot

def ofSelector (p : Platform) (s : Selector) : SelectorSnapshot :=
  ⟨s.types.map (.ofItem p), s.amount, s.all⟩

def restore (p : Platform) (s : SelectorSnapshot) : Except String Selector :=
  (s.items.mapM (ItemSnapshot.restore p)).map fun items =>
    .ofSelection ⟨items, s.amount, s.all, none⟩

def ofDocument? (d : Document) : Option SelectorSnapshot :=
  match d.fields? ["items", "amount", "all"] with
  | some [some items, amount, all] => do
    return ⟨← items.list? (ItemSnapshot.ofDocument? 3),
      ← Document.orElse? (-1) (Document.intIn? (-2147483648) 2147483647) amount,
      ← Document.orElse? false Document.bool? all⟩
  | _ => none

def ofJson? (s : String) : Option SelectorSnapshot := (Document.read? s.toList).bind ofDocument?

end SelectorSnapshot

end ItemLexicon
