import ColumnFlow.Learn.Bayes
import ColumnFlow.Learn.Boosting
import ColumnFlow.Learn.Constant
import ColumnFlow.Learn.Gradient
import ColumnFlow.Learn.Linear
import ColumnFlow.Learn.Logistic
import ColumnFlow.Learn.Margin
import ColumnFlow.Learn.Neighbors
import ColumnFlow.Learn.Simple
import ColumnFlow.Transform.Expansion
import ColumnFlow.Transform.Imputation
import ColumnFlow.Transform.OneHot
import ColumnFlow.Transform.Projection
import ColumnFlow.Transform.Scaling

/-!
Components by name: transformers and learners with their defaults, and methods that can be wrapped
with defaults of the caller's choice.
-/
namespace ColumnFlow.Components
open Learn

def entry (name : String) (v : Value) : Scalar × Value := (.text name, v)

def seeded : Scalar × Value := entry "random_state" (.int 42)

/-- Learns nothing at all, so that its node never becomes fitted. -/
def forgetful (options : Options) : Transformer :=
  ⟨"NullParams", options, fun _ => return none⟩

def transformers : List (String × (Options → Transformer)) := [
  ("CategoricalSelector", Selection.categorical),
  ("NumericSelector", Selection.numeric),
  ("CatNumDiscriminator", Recast.discriminator),
  ("Passthrough", Passthrough.passthrough),
  ("OneHotEncoder", OneHot.encoder),
  ("SimpleImputer", Imputation.simple.transformer "SimpleImputerCalculator"
    [entry "strategy" (.text "median"), entry "keep_empty_features" (.bool true)]),
  ("StandardScaler", Scaling.standard.transformer "StandardScalerCalculator"
    [entry "with_mean" (.bool true), entry "with_std" (.bool true)]),
  ("MinMaxScaler", Scaling.minMax.transformer "MinMaxScalerCalculator"
    [entry "feature_range" (.tuple [.int 0, .int 1])]),
  ("RobustScaler", Scaling.robust.transformer "RobustScalerCalculator"
    [entry "with_centering" (.bool true), entry "with_scaling" (.bool true)]),
  ("PCA", Projection.principal.transformer "PCACalculator"
    [entry "n_components" .null, seeded]),
  ("FastICA", Projection.independent.transformer "FastICACalculator"
    [entry "whiten" (.text "unit-variance"), entry "max_iter" (.int 500), seeded]),
  ("FactorAnalysis", Projection.factors.transformer "FactorAnalysisCalculator" [seeded]),
  ("NullParams", forgetful)]

def transformer? (name : String) : Option (Options → Transformer) := transformers.lookup name

def methods : List (String × Method) := [
  ("PolynomialFeatures", Expansion.polynomial),
  ("StandardScaler", Scaling.standard),
  ("MinMaxScaler", Scaling.minMax),
  ("MaxAbsScaler", Scaling.maxAbs),
  ("SimpleImputer", Imputation.simple),
  ("Binarizer", Expansion.binary),
  ("SumDiff", Expansion.sumAndDifference)]

/-- Wraps a method with parameters, for the columns that a value lists or for all that are
numeric. -/
def wrapped (m : Method) (parameters : Options) (columns : Value) : Except Failure Transformer := do
  let options ← if columns.isTrue then do
      pure [entry "columns" (.list (← Columns.items columns))]
    else pure []
  return m.transformer "SklearnTransformerCalculator" parameters options

def wrappedTransformer? (name : String) (parameters : Options) (columns : Value) :
    Option (Except Failure Transformer) :=
  (methods.lookup name).map fun m => wrapped m parameters columns

/-- A kind of learner: what it is bound to, its problem, and how it learns. -/
structure LearnerKind where
  binding : String
  problem : String
  calculate : Options → Frame → Series → Logged (Option Model)

def LearnerKind.learner (k : LearnerKind) (options : Options) (output : OutputMode) : Learner :=
  ⟨k.binding, options, output, k.problem, k.calculate options⟩

def classifying (binding : String) (m : LearningMethod) (defaults : Options) : LearnerKind :=
  ⟨binding, "classification", m.calculate defaults⟩

def regressing (binding : String) (m : LearningMethod) (defaults : Options) : LearnerKind :=
  ⟨binding, "regression", m.calculate defaults⟩

def simple (binding problem : String)
    (calculate : Options → Frame → Series → Logged (Option Model)) : String × LearnerKind :=
  (binding, ⟨binding, problem, calculate⟩)

def learners : List (String × LearnerKind) := [
  ("RandomForestClassifier", classifying "RandomForestClassifierCalculator" Forest.classifier
    [entry "n_estimators" (.int 50), entry "min_samples_leaf" (.int 2), seeded]),
  ("AdaBoostClassifier", classifying "AdaBoostClassifierCalculator" Boosting.adaptive
    [entry "n_estimators" (.int 50), seeded]),
  ("GradientBoostingClassifier", classifying "GradientBoostingClassifierCalculator"
    Gradient.boosting
    [entry "n_estimators" (.int 100), entry "max_depth" (.int 3), seeded]),
  ("LogisticRegression", classifying "LogisticRegressionCalculator" Logistic.classifier
    [entry "max_iter" (.int 1000)]),
  ("SVC", classifying "SVCCalculator" Margin.classifier
    [entry "kernel" (.text "rbf"), entry "probability" (.bool true), seeded]),
  ("KNeighborsClassifier", classifying "KNeighborsClassifierCalculator" Neighbors.classifier
    [entry "n_neighbors" (.int 5)]),
  ("DecisionTreeClassifier", classifying "DecisionTreeClassifierCalculator" Tree.classifier
    [seeded]),
  ("GaussianNB", classifying "GaussianNBCalculator" Bayes.gaussian []),
  ("RandomForestRegressor", regressing "RandomForestRegressorCalculator" Forest.regressor
    [entry "n_estimators" (.int 50), entry "min_samples_leaf" (.int 2), seeded]),
  ("RidgeRegression", regressing "RidgeRegressionCalculator" Linear.ridge
    [entry "alpha" (.float 1.0)]),
  simple "Nearest" "classification" nearest,
  simple "Majority" "classification" fun _ => majority,
  simple "Mean" "regression" fun _ => mean,
  simple "Echo" "classification" echo,
  simple "Count" "classification" fun _ => count,
  simple "NullModel" "classification" fun _ _ _ => return none]

def learnerKind? (name : String) : Option LearnerKind := learners.lookup name

def learningMethods : List (String × LearningMethod) := [
  ("DummyClassifier", Constant.classifier),
  ("DummyRegressor", Constant.regressor),
  ("KNeighborsClassifier", Neighbors.classifier),
  ("KNeighborsRegressor", Neighbors.regressor),
  ("GaussianNB", Bayes.gaussian),
  ("DecisionTreeClassifier", Tree.classifier),
  ("LinearRegression", Linear.least),
  ("Ridge", Linear.ridge),
  ("RidgeClassifier", Linear.classifier)]

/-- Wraps a method of learning with parameters. -/
def wrappedLearner? (name : String) (parameters : Options) (problem : String)
    (output : OutputMode) : Option Learner :=
  (learningMethods.lookup name).map fun m =>
    (⟨"SklearnCalculator", problem, m.calculate parameters⟩ : LearnerKind).learner [] output

/-- The learner on top of a stack that is given none. -/
def defaultStacker : Option Learner :=
  (learnerKind? "RandomForestClassifier").map fun k => k.learner [] .labels

end ColumnFlow.Components
