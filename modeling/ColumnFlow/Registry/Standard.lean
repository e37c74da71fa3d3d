import ColumnFlow.Registry.Basic
import ColumnFlow.Registry.Components

/-!
The components that every new registry starts with: selectors, transformers and learners.
-/
namespace ColumnFlow.Registry

structure StandardEntry where
  name : String
  component : String
  category : String
  description : String

def standardTransformers : List StandardEntry := [
  ⟨"catf", "CategoricalSelector", "selector",
    "Keep categorical (object, category, bool) columns."⟩,
  ⟨"numf", "NumericSelector", "selector", "Keep numeric columns."⟩,
  ⟨"catnum", "CatNumDiscriminator", "selector",
    "Recast low-cardinality numeric columns as categorical labels."⟩,
  ⟨"ohe", "OneHotEncoder", "transformer", "One-hot encode categorical columns."⟩,
  ⟨"pca", "PCA", "transformer", "Principal component projection of numeric columns."⟩,
  ⟨"ica", "FastICA", "transformer", "Independent component projection of numeric columns."⟩,
  ⟨"fa", "FactorAnalysis", "transformer", "Factor analysis of numeric columns."⟩,
  ⟨"stdsc", "StandardScaler", "transformer", "Standardize numeric columns."⟩,
  ⟨"minmax", "MinMaxScaler", "transformer", "Scale numeric columns to [0, 1]."⟩,
  ⟨"robust", "RobustScaler", "transformer", "Scale numeric columns with median/IQR."⟩,
  ⟨"imputer", "SimpleImputer", "transformer", "Fill missing numeric values."⟩,
  ⟨"noop", "Passthrough", "transformer", "Identity transform."⟩]

def standardLearners : List StandardEntry := [
  ⟨"rf", "RandomForestClassifier", "classification", "Random forest classifier."⟩,
  ⟨"ada", "AdaBoostClassifier", "classification", "AdaBoost classifier."⟩,
  ⟨"gb", "GradientBoostingClassifier", "classification", "Gradient boosting classifier."⟩,
  ⟨"lr", "LogisticRegression", "classification", "Logistic regression."⟩,
  ⟨"svc", "SVC", "classification", "Support vector classifier."⟩,
  ⟨"knn", "KNeighborsClassifier", "classification", "k-nearest neighbours classifier."⟩,
  ⟨"dt", "DecisionTreeClassifier", "classification", "Decision tree classifier."⟩,
  ⟨"nb", "GaussianNB", "classification", "Gaussian naive Bayes."⟩,
  ⟨"rfr", "RandomForestRegressor", "regression", "Random forest regressor."⟩,
  ⟨"ridge", "RidgeRegression", "regression", "Ridge regression."⟩]

namespace StandardEntry

/-- The plan of an entry, if its component is known. -/
def plan? (e : StandardEntry) : Option Plan :=
  match Components.transformer? e.component with
  | some t => some (.transformer (t []))
  | none => (Components.learnerKind? e.component).map fun k => .learner (k.learner [] .labels)

def register (r : Registry) (e : StandardEntry) : Work Registry := do
  match e.plan? with
  | none => return r
  | some plan =>
    let n ← Node.leaf plan (.text e.name)
    return (r.register ⟨.text e.name, .node n, .text e.category, .text e.description, true⟩).1

end StandardEntry

/-- A new registry with the standard components. -/
def standard : Work Registry :=
  (standardTransformers ++ standardLearners).foldlM StandardEntry.register .empty

end ColumnFlow.Registry
